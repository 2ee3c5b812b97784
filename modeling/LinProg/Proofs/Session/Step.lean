import Mathlib.Data.List.TakeWhile
import LinProg.Session.Basic

set_option autoImplicit false

/-! # Steps of a session

What a line does to a session in each phase, and what the end of the input does to it. `Accepts`
lists all that a line can do to a session which accepts it, together with what is reported of it,
and `step_eq_ok_iff` says that the list is complete. Nothing is supposed of the session here: its
parts need not agree with each other. -/

namespace LinProg

open Text

/-! ## Blank objectives -/

theorem skipWhiteSpace_of_isBlank {text : List Char} (h : isBlank text = true) :
    skipWhiteSpace text = [] := by
  rw [skipWhiteSpace, List.dropWhile_eq_nil_iff]
  exact List.all_eq_true.1 h

/-- A blank line has no keyword, which is noticed at its end. -/
theorem parseObjective_of_isBlank {line : String} (h : isBlank line.toList = true) :
    parseObjective line = .error ⟨.missingDirection, line, byteLength line.toList⟩ := by
  rw [parseObjective, readObjective, skipWhiteSpace_of_isBlank h]
  simp [readDirection?, Except.mapError, Failure.locate, offsetOf]

namespace Session

variable {s s' : Session} {line : String}

/-! ## One line -/

/-- What is reported of a problem that becomes complete in a phase. -/
def completed (phase : Phase) (p : Problem) : List Message :=
  Message.ofModel p.assemble ++ [.phaseChanged phase .assembled]

theorem assemble_eq (s : Session) :
    s.assemble = match s.objective? with
      | none => .error .missingObjective
      | some e => .ok
        ({ s with
            phase := .assembled
            model? := some (Problem.assemble ⟨e, s.restrictions, s.signRestrictions⟩) },
          completed s.phase ⟨e, s.restrictions, s.signRestrictions⟩) := by
  rw [assemble]
  cases s.objective? <;> rfl

theorem step_of_objective (h : s.phase = .objective) (line : String) :
    s.step line =
      ((parseObjective line).mapError (.statement (s.lineNumber + 1) .objective)).map fun read =>
        ({ s with
            phase := .restrictions
            lineNumber := s.lineNumber + 1
            objective? := some read.1 },
          Message.ofDropped read.2 ++
            [.objectiveRead read.1, .phaseChanged .objective .restrictions]) := by
  -- The session does not give a blank line to the parser, which would report the same.
  have hparse : (if isBlank line.toList = true then
      .error ⟨.missingDirection, line, byteLength line.toList⟩ else parseObjective line) =
      parseObjective line := by
    split
    · next hblank => exact (parseObjective_of_isBlank hblank).symm
    · rfl
  simp only [step, h, hparse, statement]
  cases parseObjective line <;> rfl

theorem step_of_restrictions (h : s.phase = .restrictions) (line : String) :
    s.step line =
      if isBlank line.toList then
        .ok ({ s with phase := .signRestrictions, lineNumber := s.lineNumber + 1 },
          [.phaseChanged .restrictions .signRestrictions])
      else
        ((parseRestriction line).mapError (.statement (s.lineNumber + 1) .restrictions)).map
          fun r =>
            ({ s with lineNumber := s.lineNumber + 1, restrictions := s.restrictions ++ [r] },
              [.restrictionRead s.restrictions.length r]) := by
  simp only [step, h, statement]
  split
  · rfl
  · cases parseRestriction line <;> rfl

theorem step_of_signRestrictions (h : s.phase = .signRestrictions) (line : String) :
    s.step line =
      if isBlank line.toList then
        match s.objective? with
        | none => .error .missingObjective
        | some e => .ok
          ({ s with
              phase := .assembled
              lineNumber := s.lineNumber + 1
              model? := some (Problem.assemble ⟨e, s.restrictions, s.signRestrictions⟩) },
            completed .signRestrictions ⟨e, s.restrictions, s.signRestrictions⟩)
      else
        ((parseSignRestriction line).mapError
          (.statement (s.lineNumber + 1) .signRestrictions)).map fun r =>
            ({ s with
                lineNumber := s.lineNumber + 1
                signRestrictions := s.signRestrictions ++ [r] },
              [.signRestrictionRead r]) := by
  simp only [step, h, statement]
  split
  · rw [assemble_eq]
  · cases parseSignRestriction line <;> rfl

theorem step_of_assembled (h : s.phase = .assembled) (line : String) :
    s.step line =
      .ok ({ s with lineNumber := s.lineNumber + 1 }, [.lineIgnored (s.lineNumber + 1)]) := by
  simp only [step, h]
  rfl

/-- What an accepted line does to a session, and what is reported of it. -/
inductive Accepts (s : Session) (line : String) : Session → List Message → Prop
  | objective {e : Expression} {dropped : List Char} (hphase : s.phase = .objective)
      (h : parseObjective line = .ok (e, dropped)) :
      Accepts s line
        { s with phase := .restrictions, lineNumber := s.lineNumber + 1, objective? := some e }
        (Message.ofDropped dropped ++ [.objectiveRead e, .phaseChanged .objective .restrictions])
  | restriction {r : Restriction} (hphase : s.phase = .restrictions)
      (hwritten : ¬ isBlank line.toList = true) (h : parseRestriction line = .ok r) :
      Accepts s line
        { s with lineNumber := s.lineNumber + 1, restrictions := s.restrictions ++ [r] }
        [.restrictionRead s.restrictions.length r]
  | restrictionsEnd (hphase : s.phase = .restrictions) (hblank : isBlank line.toList = true) :
      Accepts s line { s with phase := .signRestrictions, lineNumber := s.lineNumber + 1 }
        [.phaseChanged .restrictions .signRestrictions]
  | signRestriction {r : SignRestriction} (hphase : s.phase = .signRestrictions)
      (hwritten : ¬ isBlank line.toList = true) (h : parseSignRestriction line = .ok r) :
      Accepts s line
        { s with lineNumber := s.lineNumber + 1, signRestrictions := s.signRestrictions ++ [r] }
        [.signRestrictionRead r]
  | signRestrictionsEnd {e : Expression} (hphase : s.phase = .signRestrictions)
      (hblank : isBlank line.toList = true) (hobjective : s.objective? = some e) :
      Accepts s line
        { s with
          phase := .assembled
          lineNumber := s.lineNumber + 1
          model? := some (Problem.assemble ⟨e, s.restrictions, s.signRestrictions⟩) }
        (completed .signRestrictions ⟨e, s.restrictions, s.signRestrictions⟩)
  | ignored (hphase : s.phase = .assembled) :
      Accepts s line { s with lineNumber := s.lineNumber + 1 } [.lineIgnored (s.lineNumber + 1)]

section Statement

variable {α : Type} {parsed : Except ParseError α} {f : ParseError → CompileError}
  {g : α → Session × List Message}

/-- A line that is accepted because of its statement has one. -/
theorem exists_of_statement {done : Session × List Message}
    (h : (parsed.mapError f).map g = .ok done) : ∃ a, parsed = .ok a ∧ g a = done := by
  cases parsed with
  | error e => cases h
  | ok a => exact ⟨a, rfl, Except.ok.inj h⟩

theorem exists_error_of_statement {err : CompileError}
    (h : ((parsed.mapError f).map g).map (·.1) = .error err) : ∃ e, err = f e := by
  cases parsed with
  | error e => exact ⟨e, (Except.error.inj h).symm⟩
  | ok a => cases h

end Statement

theorem accepts_of_step {messages : List Message} (h : s.step line = .ok (s', messages)) :
    s.Accepts line s' messages := by
  cases hphase : s.phase with
  | objective =>
    rw [step_of_objective hphase] at h
    obtain ⟨read, hparse, hdone⟩ := exists_of_statement h
    cases hdone
    exact .objective hphase hparse
  | restrictions =>
    rw [step_of_restrictions hphase] at h
    split at h
    · next hblank =>
      cases h
      exact .restrictionsEnd hphase hblank
    · next hwritten =>
      obtain ⟨r, hparse, hdone⟩ := exists_of_statement h
      cases hdone
      exact .restriction hphase hwritten hparse
  | signRestrictions =>
    rw [step_of_signRestrictions hphase] at h
    split at h
    · next hblank =>
      split at h
      · cases h
      · next hobjective =>
        cases h
        exact .signRestrictionsEnd hphase hblank hobjective
    · next hwritten =>
      obtain ⟨r, hparse, hdone⟩ := exists_of_statement h
      cases hdone
      exact .signRestriction hphase hwritten hparse
  | assembled =>
    rw [step_of_assembled hphase] at h
    cases h
    exact .ignored hphase

/-- All that a line can do to a session which accepts it. -/
theorem step_eq_ok_iff {messages : List Message} :
    s.step line = .ok (s', messages) ↔ s.Accepts line s' messages := by
  constructor
  · exact accepts_of_step
  · intro h
    cases h with
    | objective hphase h => rw [step_of_objective hphase, h]; rfl
    | restriction hphase hwritten h =>
      rw [step_of_restrictions hphase, if_neg hwritten, h]
      rfl
    | restrictionsEnd hphase hblank => rw [step_of_restrictions hphase, if_pos hblank]
    | signRestriction hphase hwritten h =>
      rw [step_of_signRestrictions hphase, if_neg hwritten, h]
      rfl
    | signRestrictionsEnd hphase hblank hobjective =>
      rw [step_of_signRestrictions hphase, if_pos hblank, hobjective]
    | ignored hphase => exact step_of_assembled hphase line

theorem feed_eq_ok_iff : s.feed line = .ok s' ↔ ∃ messages, s.Accepts line s' messages := by
  simp only [← step_eq_ok_iff, feed]
  cases s.step line with
  | error e => simp [Except.map]
  | ok done =>
    obtain ⟨t, messages⟩ := done
    simp [Except.map]

/-- A session that has its model only counts what comes. -/
theorem feed_of_assembled (h : s.phase = .assembled) (line : String) :
    s.feed line = .ok { s with lineNumber := s.lineNumber + 1 } := by
  rw [feed, step_of_assembled h]
  rfl

/-- A line is not accepted because of the statement on it, or because the objective is missing of
    the problem that it completes. -/
theorem feed_eq_error {err : CompileError} (h : s.feed line = .error err) :
    err = .missingObjective ∨ ∃ e, err = .statement (s.lineNumber + 1) s.phase e := by
  rw [feed] at h
  cases hphase : s.phase with
  | objective =>
    rw [step_of_objective hphase] at h
    exact .inr (exists_error_of_statement h)
  | restrictions =>
    rw [step_of_restrictions hphase] at h
    split at h
    · cases h
    · exact .inr (exists_error_of_statement h)
  | signRestrictions =>
    rw [step_of_signRestrictions hphase] at h
    split at h
    · split at h
      · cases h
        exact .inl rfl
      · cases h
    · exact .inr (exists_error_of_statement h)
  | assembled =>
    rw [step_of_assembled hphase] at h
    cases h

/-! ## The end of the input -/

theorem close_eq (s : Session) :
    s.close = if s.phase = .assembled then
        match s.model? with
        | none => .error .missingObjective
        | some m => .ok (m, [])
      else match s.objective? with
        | none => .error .missingObjective
        | some e => .ok (Problem.assemble ⟨e, s.restrictions, s.signRestrictions⟩,
          completed s.phase ⟨e, s.restrictions, s.signRestrictions⟩) := by
  rw [close]
  split
  · simp only [bind, Except.bind]
    rfl
  · rw [assemble_eq]
    cases s.objective? <;> rfl

/-- Nothing but a missing objective keeps a session from ending with a model. -/
theorem eq_missingObjective_of_finish {err : CompileError} (h : s.finish = .error err) :
    err = .missingObjective := by
  rw [finish, close_eq] at h
  split at h
  · split at h <;> cases h
    rfl
  · split at h <;> cases h
    rfl

theorem finish_of_assembled {m : Model} (hphase : s.phase = .assembled) (h : s.model? = some m) :
    s.finish = .ok m := by
  rw [finish, close_eq, if_pos hphase, h]
  rfl

theorem finish_of_objective {e : Expression} (hphase : s.phase ≠ .assembled)
    (h : s.objective? = some e) :
    s.finish = .ok (Problem.assemble ⟨e, s.restrictions, s.signRestrictions⟩) := by
  rw [finish, close_eq, if_neg hphase, h]
  rfl

theorem finish_of_no_objective (hphase : s.phase ≠ .assembled) (h : s.objective? = none) :
    s.finish = .error .missingObjective := by
  rw [finish, close_eq, if_neg hphase, h]
  rfl

/-- What the end of the input comes to does not depend on the number of lines. -/
theorem finish_with_lineNumber (s : Session) (n : Nat) :
    finish { s with lineNumber := n } = s.finish := by
  rw [finish, finish, close_eq, close_eq]

/-! ## Many lines -/

theorem feedAll_cons (s : Session) (line : String) (lines : List String) :
    s.feedAll (line :: lines) = (s.feed line).bind fun s' => s'.feedAll lines := by
  rw [feedAll, List.foldlM_cons]
  rfl

theorem feedAll_cons_eq_ok_iff {lines : List String} :
    s.feedAll (line :: lines) = .ok s' ↔ ∃ t, s.feed line = .ok t ∧ t.feedAll lines = .ok s' := by
  rw [feedAll_cons]
  cases s.feed line with
  | error e => simp [Except.bind]
  | ok t => simp [Except.bind]

theorem feedAll_append (s : Session) (lines more : List String) :
    s.feedAll (lines ++ more) = (s.feedAll lines).bind fun s' => s'.feedAll more := by
  rw [feedAll, List.foldlM_append]
  rfl

theorem feedAll_of_assembled (h : s.phase = .assembled) (lines : List String) :
    s.feedAll lines = .ok { s with lineNumber := s.lineNumber + lines.length } := by
  induction lines generalizing s with
  | nil => rfl
  | cons line lines ih =>
    rw [feedAll_cons_eq_ok_iff]
    refine ⟨_, feed_of_assembled h line, ?_⟩
    rw [ih (s := { s with lineNumber := s.lineNumber + 1 }) h, List.length_cons, Nat.add_assoc,
      Nat.add_comm 1]

end Session

end LinProg
