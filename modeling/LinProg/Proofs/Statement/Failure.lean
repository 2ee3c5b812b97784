import LinProg.Proofs.Statement.Direction
import LinProg.Proofs.Statement.Relation
import LinProg.Session.Phase

set_option autoImplicit false

/-! # Where statements fail

A line that is not the statement it should be is reported with a fault and a place. `Fault.Fits`
says for each fault what the place looks like: what comes before it, and what comes after it or does
not. `Phase.faults` lists the faults that the statements of a phase can have. The readers keep to
both (`readObjective_error`, `readRestriction_error`, `readSignRestriction_error`), and so do the
errors on whole lines, whose offset is that of the place (`ParseError.WellPlaced`). -/

namespace LinProg

open Text Grammar

/-! ## Faults and their places -/

/-- What the line looks like at the place where a fault is noticed, between the text before it and
    the text after it. -/
inductive Fault.Fits (before after : List Char) : Fault → Prop
  /-- The direction is missing where the white space at the start of the line ends. -/
  | missingDirection (hbefore : ∀ c ∈ before, isWhiteSpace c = true)
      (hafter : Ends isWhiteSpace after) : Fits before after .missingDirection
  /-- No name starts there. -/
  | invalidVariable (hafter : Ends Char.isAlpha after) : Fits before after .invalidVariable
  /-- No relational sign starts there, and no white space that one could come after. -/
  | missingRelation (hrelation : Ends startsRelation after) (hspace : Ends isWhiteSpace after) :
      Fits before after .missingRelation
  /-- The relational sign after the expression of the line ends there. -/
  | invalidBound {s : Split} {sign : RelationSign} (hline : s.chars = before ++ after)
      (htail : s.tail = sign.chars ++ after) (hlongest : sign.IsLongest after)
      (hbefore : sign.chars <:+ before) : Fits before after .invalidBound
  /-- A relational sign starts there. -/
  | invalidSignRestriction {sign : RelationSign} (hafter : sign.chars <+: after) :
      Fits before after .invalidSignRestriction

/-- The faults that a statement of a phase can have. -/
def Phase.faults : Phase → List Fault
  | .objective => [.missingDirection, .invalidVariable]
  | .restrictions => [.invalidVariable, .missingRelation, .invalidBound]
  | .signRestrictions => [.invalidVariable, .missingRelation, .invalidSignRestriction]
  | .assembled => []

/-- A failure that a statement of a phase can have, at a fitting place of a text. -/
structure Failure.WellPlaced (f : Failure) (phase : Phase) (text : List Char) : Prop where
  fault_mem : f.fault ∈ phase.faults
  fits : ∃ before, text = before ++ f.unread ∧ f.fault.Fits before f.unread

/-- An error that a statement of a phase can have, at a fitting place of its line. -/
structure ParseError.WellPlaced (e : ParseError) (phase : Phase) : Prop where
  fault_mem : e.fault ∈ phase.faults
  fits : ∃ before after, e.line.toList = before ++ after ∧ byteLength before = e.offset ∧
    e.fault.Fits before after

theorem Failure.WellPlaced.locate {f : Failure} {phase : Phase} {line : String}
    (h : f.WellPlaced phase line.toList) : (f.locate line).WellPlaced phase := by
  obtain ⟨before, hline, hfits⟩ := h.fits
  exact ⟨h.fault_mem, before, f.unread, hline, (offsetOf_eq hline).symm, hfits⟩

/-! ## Readers -/

/-- Where a term lacks its name no letter comes. -/
theorem Grammar.LacksName.ends_isAlpha {c : Coefficient} {unread : List Char}
    (h : LacksName c unread) : Ends Char.isAlpha unread := by
  cases unread with
  | nil => exact ends_nil
  | cons d rest =>
    rw [ends_cons, Bool.eq_false_iff]
    intro hd
    refine h.no_monomial ⟨c, ⟨d, [], hd, by simp⟩⟩ ⟨rest, ?_⟩
    simp [Monomial.chars, Name.chars]

/-- An expression fails where a name is missing. -/
theorem exists_of_readExpression_error {text unread : List Char}
    (h : readExpression text = .error unread) :
    ∃ before, text = before ++ unread ∧ Ends Char.isAlpha unread := by
  obtain ⟨k, rfl, rfl⟩ := readExpression_eq_error_iff.1 h
  obtain ⟨before, hchars⟩ := k.unread_suffix
  exact ⟨before, hchars.symm, k.lacksName.ends_isAlpha⟩

theorem readName?_eq_none_iff {text : List Char} :
    readName? text = none ↔ Ends Char.isAlpha text := by
  cases text with
  | nil => simp [readName?]
  | cons c text => simp [readName?]

theorem readObjective_error {text : List Char} {f : Failure}
    (h : readObjective text = .error f) : f.WellPlaced .objective text := by
  obtain ⟨space, hspace, hends⟩ := exists_of_skipWhiteSpace text
  rw [readObjective] at h
  split at h
  · cases h
    exact ⟨by simp [Phase.faults], space.chars, hspace.symm,
      .missingDirection space.all_white hends⟩
  · next d body hdirection =>
    obtain ⟨hkeyword, -⟩ := readDirection?_eq_some_iff.1 hdirection
    split at h
    · next unread hread =>
      cases h
      obtain ⟨before, hbody, hname⟩ := exists_of_readExpression_error hread
      refine ⟨by simp [Phase.faults], space.chars ++ (d.keyword ++ before), ?_,
        .invalidVariable hname⟩
      rw [← hspace, ← hkeyword, hbody]
      simp
    · cases h

theorem readRestriction_error {text : List Char} {f : Failure}
    (h : readRestriction text = .error f) : f.WellPlaced .restrictions text := by
  rw [readRestriction] at h
  split at h
  · next unread hread =>
    cases h
    obtain ⟨before, htext, hname⟩ := exists_of_readExpression_error hread
    exact ⟨by simp [Phase.faults], before, htext, .invalidVariable hname⟩
  · next e rest hread =>
    obtain ⟨s, rfl, -, rfl⟩ := readExpression_eq_ok_iff.1 hread
    obtain ⟨written, htext⟩ := s.tail_suffix
    split at h
    · next hrelation =>
      cases h
      exact ⟨by simp [Phase.faults], written, htext.symm,
        .missingRelation (readRelation?_eq_none_iff.1 hrelation) (ends_of_stopsAt s.tail_stops).1⟩
    · next relation right hrelation =>
      obtain ⟨sign, hsign, -, hlongest⟩ := readRelation?_eq_some_iff.1 hrelation
      split at h
      · cases h
        have hline : s.chars = written ++ sign.chars ++ right := by
          rw [← htext, ← hsign, List.append_assoc]
        exact ⟨by simp [Phase.faults], written ++ sign.chars, hline,
          .invalidBound hline hsign.symm hlongest (List.suffix_append _ _)⟩
      · cases h

theorem readSignRestriction_error {text : List Char} {f : Failure}
    (h : readSignRestriction text = .error f) : f.WellPlaced .signRestrictions text := by
  obtain ⟨space, hspace, -⟩ := exists_of_skipWhiteSpace text
  rw [readSignRestriction] at h
  split at h
  · next hname =>
    cases h
    exact ⟨by simp [Phase.faults], space.chars, hspace.symm,
      .invalidVariable (readName?_eq_none_iff.1 hname)⟩
  · next name rest hname =>
    obtain ⟨n, hn, -, -⟩ := exists_of_readName? hname
    obtain ⟨gap, hgap, hends⟩ := exists_of_skipWhiteSpace rest
    have htext : text = space.chars ++ (n.chars ++ gap.chars) ++ skipWhiteSpace rest := by
      simp [hgap, hn, hspace]
    split at h
    · next hrelation =>
      cases h
      exact ⟨by simp [Phase.faults], _, htext,
        .missingRelation (readRelation?_eq_none_iff.1 hrelation) hends⟩
    · next relation right hrelation =>
      obtain ⟨sign, hsign, -, -⟩ := readRelation?_eq_some_iff.1 hrelation
      split at h
      · cases h
      · cases h
        exact ⟨by simp [Phase.faults], _, htext, .invalidSignRestriction ⟨right, hsign⟩⟩

/-! ## Lines -/

theorem mapError_eq_error_iff {ε ε' α : Type} {f : ε → ε'} {x : Except ε α} {e : ε'} :
    x.mapError f = .error e ↔ ∃ e', x = .error e' ∧ f e' = e := by
  cases x with
  | error e' => simp [Except.mapError]
  | ok a => simp [Except.mapError]

theorem parseObjective_error {line : String} {e : ParseError}
    (h : parseObjective line = .error e) : e.line = line ∧ e.WellPlaced .objective := by
  obtain ⟨f, hf, rfl⟩ := mapError_eq_error_iff.1 h
  exact ⟨rfl, (readObjective_error hf).locate⟩

theorem parseRestriction_error {line : String} {e : ParseError}
    (h : parseRestriction line = .error e) : e.line = line ∧ e.WellPlaced .restrictions := by
  obtain ⟨f, hf, rfl⟩ := mapError_eq_error_iff.1 h
  exact ⟨rfl, (readRestriction_error hf).locate⟩

theorem parseSignRestriction_error {line : String} {e : ParseError}
    (h : parseSignRestriction line = .error e) :
    e.line = line ∧ e.WellPlaced .signRestrictions := by
  obtain ⟨f, hf, rfl⟩ := mapError_eq_error_iff.1 h
  exact ⟨rfl, (readSignRestriction_error hf).locate⟩

end LinProg
