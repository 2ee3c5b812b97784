import LinProg.Proofs.Session.Sections
import LinProg.Proofs.Statement.Failure
import LinProg.Proofs.Text.Position

set_option autoImplicit false

/-! # Where sessions fail

A session that fails on a statement says which line it was and where in that line. The line is the
one with the reported number (`getElem?_statements`), the position is a character boundary of it
(`ParseError.WellPlaced.isValid`), and the fault is one of the phase and fits there. -/

namespace LinProg

open Text

/-- The position of an error is a position of its line. -/
theorem ParseError.WellPlaced.isValid {e : ParseError} {phase : Phase} (h : e.WellPlaced phase) :
    String.Pos.Raw.IsValid e.line ⟨e.offset⟩ := by
  obtain ⟨before, after, hline, hoffset, -⟩ := h.fits
  exact hoffset ▸ isValid_of_append hline

theorem map_eq_error_iff {ε α β : Type} {f : α → β} {x : Except ε α} {e : ε} :
    x.map f = .error e ↔ x = .error e := by
  cases x with
  | error e' => simp [Except.map]
  | ok a => simp [Except.map]

/-- A statement that cannot be read is reported with its line and at a fitting place of it. -/
theorem wellPlaced_of_check {s : Statement} {e : ParseError} (h : s.check = .error e) :
    e.line = s.line ∧ e.WellPlaced s.phase := by
  obtain ⟨number, phase, line⟩ := s
  cases phase with
  | objective => exact parseObjective_error (map_eq_error_iff.1 h)
  | restrictions => exact parseRestriction_error (map_eq_error_iff.1 h)
  | signRestrictions => exact parseSignRestriction_error (map_eq_error_iff.1 h)
  | assembled => cases h

/-- A session that fails on a statement does so on one of the statements of its lines. -/
theorem exists_statement_of_readAll {lines : List String} {number : Nat} {phase : Phase}
    {e : ParseError} (h : Session.new.readAll lines = .error (.statement number phase e)) :
    ∃ s ∈ statements lines, s.check = .error e ∧ s.number = number ∧ s.phase = phase := by
  cases lines with
  | nil => cases h
  | cons first rest =>
    obtain ⟨s, hs, herror⟩ :=
      List.exists_of_findSome?_eq_some (Session.readAll_eq_error_iff.1 h)
    obtain ⟨e', hcheck, heq⟩ := error?_eq_some_iff.1 herror
    cases heq
    exact ⟨s, hs, hcheck, rfl, rfl⟩

/-- Every fault that is listed for a phase is reported for some lines. -/
theorem exists_readAll_of_mem_faults {phase : Phase} {fault : Fault} (h : fault ∈ phase.faults) :
    ∃ lines number e, Session.new.readAll lines = .error (.statement number phase e) ∧
      e.fault = fault := by
  cases phase with
  | objective =>
    simp only [Phase.faults, List.mem_cons, List.not_mem_nil, or_false] at h
    rcases h with rfl | rfl
    · exact ⟨["x"], 1, ⟨.missingDirection, "x", 0⟩, by decide +kernel, rfl⟩
    · exact ⟨["min"], 1, ⟨.invalidVariable, "min", 3⟩, by decide +kernel, rfl⟩
  | restrictions =>
    simp only [Phase.faults, List.mem_cons, List.not_mem_nil, or_false] at h
    rcases h with rfl | rfl | rfl
    · exact ⟨["min x", "3"], 2, ⟨.invalidVariable, "3", 1⟩, by decide +kernel, rfl⟩
    · exact ⟨["min x", "x"], 2, ⟨.missingRelation, "x", 1⟩, by decide +kernel, rfl⟩
    · exact ⟨["min x", "x <"], 2, ⟨.invalidBound, "x <", 3⟩, by decide +kernel, rfl⟩
  | signRestrictions =>
    simp only [Phase.faults, List.mem_cons, List.not_mem_nil, or_false] at h
    rcases h with rfl | rfl | rfl
    · exact ⟨["min x", "", "3"], 3, ⟨.invalidVariable, "3", 0⟩, by decide +kernel, rfl⟩
    · exact ⟨["min x", "", "x"], 3, ⟨.missingRelation, "x", 1⟩, by decide +kernel, rfl⟩
    · exact ⟨["min x", "", "x <= 0"], 3, ⟨.invalidSignRestriction, "x <= 0", 2⟩,
        by decide +kernel, rfl⟩
  | assembled => cases h

/-- **Errors point at what is wrong.** When the lines of a session end with an error on a statement,
    the error has the line with the reported number and a position in that line, at a boundary of
    its characters. The phase is not the last one, the fault is one that a statement of the phase
    can have, and it fits the place in the line. No fault is listed for a phase in vain. -/
theorem Session.readAll_error_wellPlaced :
    (∀ (lines : List String) (number : Nat) (phase : Phase) (e : ParseError),
      Session.new.readAll lines = .error (.statement number phase e) →
        0 < number ∧ lines[number - 1]? = some e.line ∧ e.offset ≤ e.line.utf8ByteSize ∧
          String.Pos.Raw.IsValid e.line ⟨e.offset⟩ ∧ phase ≠ .assembled ∧ e.WellPlaced phase) ∧
      ∀ (phase : Phase), ∀ fault ∈ phase.faults, ∃ lines number e,
        Session.new.readAll lines = .error (.statement number phase e) ∧ e.fault = fault := by
  constructor
  · intro lines number phase e h
    obtain ⟨s, hs, hcheck, rfl, rfl⟩ := exists_statement_of_readAll h
    obtain ⟨hpos, hline⟩ := getElem?_statements hs
    obtain ⟨heq, hplaced⟩ := wellPlaced_of_check hcheck
    have hphase : s.phase ≠ .assembled := by
      intro hassembled
      have := hplaced.fault_mem
      simp [hassembled, Phase.faults] at this
    exact ⟨hpos, by rw [hline, heq], hplaced.isValid.le_rawEndPos, hplaced.isValid, hphase,
      hplaced⟩
  · intro phase fault h
    exact exists_readAll_of_mem_faults h

end LinProg
