import LinProg.Proofs.Session.Sections

set_option autoImplicit false

/-! # The statements of a session

The statements that a session holds are those of the lines it was given, section by section and in
order: one objective, a restriction for every line of the first section and a sign restriction for
every line of the second one (`statements_of_feedAll`). -/

namespace LinProg.Session

open Text

section Sections

variable {s t : Session} {lines : List String}

theorem statements_of_signRestrictions (h : s.feedAll lines = .ok t)
    (hphase : s.phase = .signRestrictions) :
    t.restrictions = s.restrictions ∧ ∃ ss, t.signRestrictions = s.signRestrictions ++ ss ∧
      List.Forall₂ (fun line r => parseSignRestriction line = .ok r) (sectionLines lines) ss := by
  induction lines generalizing s with
  | nil =>
    cases h
    exact ⟨rfl, [], (List.append_nil _).symm, .nil⟩
  | cons line lines ih =>
    obtain ⟨u, hu, hrest⟩ := feedAll_cons_eq_ok_iff.1 h
    obtain ⟨messages, haccepts⟩ := feed_eq_ok_iff.1 hu
    cases haccepts with
    | @signRestriction r _ hwritten hparse =>
      obtain ⟨hrs, ss, hss, hread⟩ := ih hrest hphase
      rw [sectionLines_cons_written lines hwritten]
      exact ⟨hrs, r :: ss, by rw [hss, List.append_assoc, List.singleton_append],
        .cons hparse hread⟩
    | signRestrictionsEnd _ hblank =>
      -- Nothing is added to a problem that is complete.
      rw [feedAll_of_assembled rfl] at hrest
      cases hrest
      rw [sectionLines_cons_blank lines hblank]
      exact ⟨rfl, [], (List.append_nil _).symm, .nil⟩
    | _ hother => cases hother.symm.trans hphase

theorem statements_of_restrictions (h : s.feedAll lines = .ok t)
    (hphase : s.phase = .restrictions) (hsigns : s.signRestrictions = []) :
    (∃ rs, t.restrictions = s.restrictions ++ rs ∧
      List.Forall₂ (fun line r => parseRestriction line = .ok r) (sectionLines lines) rs) ∧
    List.Forall₂ (fun line r => parseSignRestriction line = .ok r)
      (sectionLines (afterSection lines)) t.signRestrictions := by
  induction lines generalizing s with
  | nil =>
    cases h
    exact ⟨⟨[], (List.append_nil _).symm, .nil⟩, hsigns ▸ .nil⟩
  | cons line lines ih =>
    obtain ⟨u, hu, hrest⟩ := feedAll_cons_eq_ok_iff.1 h
    obtain ⟨messages, haccepts⟩ := feed_eq_ok_iff.1 hu
    cases haccepts with
    | @restriction r _ hwritten hparse =>
      obtain ⟨⟨rs, hrs, hread⟩, hmore⟩ := ih hrest hphase hsigns
      rw [sectionLines_cons_written lines hwritten, afterSection_cons_written lines hwritten]
      exact ⟨⟨r :: rs, by rw [hrs, List.append_assoc, List.singleton_append],
        .cons hparse hread⟩, hmore⟩
    | restrictionsEnd _ hblank =>
      obtain ⟨hrs, ss, hss, hread⟩ := statements_of_signRestrictions hrest rfl
      rw [sectionLines_cons_blank lines hblank, afterSection_cons_blank lines hblank, hss, hsigns]
      exact ⟨⟨[], by rw [hrs, List.append_nil], .nil⟩, hread⟩
    | _ hother => cases hother.symm.trans hphase

end Sections

/-- The restrictions and the sign restrictions of a session are those that its lines state. -/
theorem statements_of_feedAll {texts : List String} {s : Session}
    (h : new.feedAll texts = .ok s) :
    List.Forall₂ (fun line r => parseRestriction line = .ok r) (sectionLines texts.tail)
      s.restrictions ∧
    List.Forall₂ (fun line r => parseSignRestriction line = .ok r)
      (sectionLines (afterSection texts.tail)) s.signRestrictions := by
  cases texts with
  | nil =>
    cases h
    exact ⟨.nil, .nil⟩
  | cons first rest =>
    obtain ⟨t, ht, hrest⟩ := feedAll_cons_eq_ok_iff.1 h
    obtain ⟨messages, haccepts⟩ := feed_eq_ok_iff.1 ht
    cases haccepts with
    | objective =>
      obtain ⟨⟨rs, hrs, hread⟩, hsigns⟩ := statements_of_restrictions hrest rfl rfl
      exact ⟨hrs ▸ hread, hsigns⟩
    | _ hother => cases hother

end LinProg.Session
