import LinProg.Proofs.Session.Stream
import LinProg.Proofs.Statement.ZeroFree

set_option autoImplicit false

/-! # The problem of a session

The statements that a session holds make up a problem, once the objective was read. Finishing the
session gives the model of that problem (`finish_eq_ok_iff`). All of the statements were read from
the session's lines: the objective from the first one (`exists_parseObjective_of_feedAll`) and every
restriction from some line (`exists_parseRestriction_of_feedAll`). So what holds of every statement
that is read holds of the problem, such as that its expressions have no zeros
(`zeroFree_of_feedAll`), and every model that a compilation returns is that of such a problem
(`exists_problem_of_compile`). -/

namespace LinProg

open Text

namespace Session

/-- What a session takes the problem to be, once the objective was read. -/
def problem? (s : Session) : Option Problem :=
  s.objective?.map fun e => ⟨e, s.restrictions, s.signRestrictions⟩

/-- A session that lines have led to ends with the model of its problem. -/
theorem finish_eq_ok_iff {s : Session} {fed : Nat} (h : s.Coherent fed) {m : Model} :
    s.finish = .ok m ↔ ∃ p, s.problem? = some p ∧ m = p.assemble := by
  by_cases hphase : s.phase = .assembled
  · -- Here the model was there before, and it is the problem's because the session is coherent.
    obtain ⟨model, hmodel⟩ := Option.isSome_iff_exists.1 (h.model.2 hphase)
    obtain ⟨e, hobjective, rfl⟩ := h.assembled model hmodel
    simp [finish_of_assembled hphase hmodel, problem?, hobjective, eq_comm]
  · cases hobjective : s.objective? with
    | none => simp [finish_of_no_objective hphase hobjective, problem?, hobjective]
    | some e => simp [finish_of_objective hphase hobjective, problem?, hobjective, eq_comm]

section Statements

variable {s s' : Session}

/-- A restriction that a session holds after a line was there before or is on the line. -/
theorem mem_restrictions_of_feed {line : String} (h : s.feed line = .ok s') {r : Restriction}
    (hr : r ∈ s'.restrictions) : r ∈ s.restrictions ∨ parseRestriction line = .ok r := by
  obtain ⟨messages, haccepts⟩ := feed_eq_ok_iff.1 h
  cases haccepts with
  | restriction hphase hwritten hparse =>
    rcases List.mem_append.1 hr with hr | hr
    · exact .inl hr
    · exact .inr (List.mem_singleton.1 hr ▸ hparse)
  | _ => exact .inl hr

theorem exists_parseRestriction_of_feedAll {lines : List String} (h : s.feedAll lines = .ok s')
    {r : Restriction} (hr : r ∈ s'.restrictions) :
    r ∈ s.restrictions ∨ ∃ line ∈ lines, parseRestriction line = .ok r := by
  induction lines generalizing s with
  | nil =>
    cases h
    exact .inl hr
  | cons line lines ih =>
    obtain ⟨t, ht, hrest⟩ := feedAll_cons_eq_ok_iff.1 h
    rcases ih hrest with hold | ⟨line', hline', hparse⟩
    · rcases mem_restrictions_of_feed ht hold with hold | hparse
      · exact .inl hold
      · exact .inr ⟨line, List.mem_cons_self, hparse⟩
    · exact .inr ⟨line', List.mem_cons_of_mem _ hline', hparse⟩

/-- The objective is on the first line, and no other line changes it. -/
theorem exists_parseObjective_of_feedAll {lines : List String} (h : new.feedAll lines = .ok s)
    {e : Expression} (he : s.objective? = some e) :
    ∃ line dropped, lines.head? = some line ∧ parseObjective line = .ok (e, dropped) := by
  cases lines with
  | nil =>
    cases h
    cases he
  | cons line lines =>
    obtain ⟨t, ht, hrest⟩ := feedAll_cons_eq_ok_iff.1 h
    have hextends := (coherent_new.feed ht).extends hrest
    obtain ⟨messages, haccepts⟩ := feed_eq_ok_iff.1 ht
    cases haccepts with
    | @objective e' dropped hphase hparse =>
      have he' := hextends.objective e' rfl
      rw [he] at he'
      cases he'
      exact ⟨line, dropped, rfl, hparse⟩
    | _ hother => cases hother

end Statements

/-- Whether no expression that a session holds has a zero. -/
def ZeroFree (s : Session) : Prop :=
  ∀ p, s.problem? = some p → p.ZeroFree

/-- No session that lines have led to holds a zero. -/
theorem zeroFree_of_feedAll {s : Session} {lines : List String} (h : new.feedAll lines = .ok s) :
    s.ZeroFree := by
  intro p hp
  rw [problem?, Option.map_eq_some_iff] at hp
  obtain ⟨e, he, rfl⟩ := hp
  constructor
  · obtain ⟨line, dropped, -, hparse⟩ := exists_parseObjective_of_feedAll h he
    exact zeroFree_of_parseObjective hparse
  · intro r hr
    rcases exists_parseRestriction_of_feedAll h hr with hold | ⟨line, -, hparse⟩
    · cases hold
    · exact zeroFree_of_parseRestriction hparse

end Session

/-- A model that a compilation returns is that of the statements on the lines up to some point of
    the stream, and their expressions hold no zeros. -/
theorem exists_problem_of_compile {bytes : List UInt8} {m : Model}
    (h : (compile bytes).result = .ok m) :
    ∃ (taken rest : List (List UInt8)) (texts : List String) (s : Session) (p : Problem),
      LinesOf lineFeed carriageReturn bytes (taken ++ rest) ∧
        List.Forall₂ Encodes texts taken ∧ Session.new.feedAll texts = .ok s ∧
        s.problem? = some p ∧ p.ZeroFree ∧ m = p.assemble := by
  obtain ⟨lines, hlines⟩ := exists_linesOf lineFeed carriageReturn bytes
  have houtcome := (outcome_iff hlines).1 h
  generalize hresult : Except.ok m = result at houtcome
  cases houtcome with
  | @finished taken rest texts s hsplit htexts hfeed hend =>
    obtain ⟨p, hp, hm⟩ :=
      (Session.finish_eq_ok_iff (Session.coherent_of_feedAll hfeed)).1 hresult.symm
    exact ⟨taken, rest, texts, s, p, hsplit ▸ hlines, htexts, hfeed, hp,
      Session.zeroFree_of_feedAll hfeed p hp, hm⟩
  | undecodable => cases hresult
  | @rejected taken rest line texts s text e hsplit htexts hfeed hline herror => cases hresult

end LinProg
