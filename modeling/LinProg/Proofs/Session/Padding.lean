import LinProg.Proofs.Session.Blank
import LinProg.Proofs.Statement.Padding

set_option autoImplicit false

/-! # White space around lines and at their ends

A session takes a line in the same way whatever white space comes before and after it: a blank line
stays blank, and a statement is read as the same or has the same fault (`feed_padded`). So lines
with white space around them come to the same, but for the place of a fault in its line
(`AgreeUpToPlace`). The carriage returns that a text may have before its line feeds do not belong to
its lines, so that they do not change anything at all (`compileText_withReturns`). -/

namespace LinProg

open Text

/-- Whether two results are the same, but for the line of a fault and its place in the line. -/
inductive AgreeUpToPlace {α : Type} : Except CompileError α → Except CompileError α → Prop
  | ok (a : α) : AgreeUpToPlace (.ok a) (.ok a)
  | statement (number : Nat) (phase : Phase) {e e' : ParseError} (h : e'.fault = e.fault) :
      AgreeUpToPlace (.error (.statement number phase e)) (.error (.statement number phase e'))
  | missingObjective : AgreeUpToPlace (.error .missingObjective) (.error .missingObjective)

namespace AgreeUpToPlace

variable {α β : Type}

/-- Statements with the same faults are errors that agree. -/
theorem of_mapError {r r' : Except ParseError α}
    (h : r'.mapError ParseError.fault = r.mapError ParseError.fault) (number : Nat)
    (phase : Phase) :
    AgreeUpToPlace (r.mapError (.statement number phase))
      (r'.mapError (.statement number phase)) := by
  cases r with
  | error e =>
    cases r' with
    | error e' => exact .statement number phase (Except.error.inj h)
    | ok a' => cases h
  | ok a =>
    cases r' with
    | error e' => cases h
    | ok a' =>
      cases h
      exact .ok a

theorem bind {r r' : Except CompileError α} (h : AgreeUpToPlace r r')
    {f f' : α → Except CompileError β} (hf : ∀ a, AgreeUpToPlace (f a) (f' a)) :
    AgreeUpToPlace (r.bind f) (r'.bind f') := by
  cases h with
  | ok a => exact hf a
  | statement number phase h => exact .statement number phase h
  | missingObjective => exact .missingObjective

theorem map {r r' : Except CompileError α} (h : AgreeUpToPlace r r') (f : α → β) :
    AgreeUpToPlace (r.map f) (r'.map f) := by
  cases h with
  | ok a => exact .ok (f a)
  | statement number phase h => exact .statement number phase h
  | missingObjective => exact .missingObjective

end AgreeUpToPlace

namespace Session

/-! ## White space around lines -/

theorem feed_of_objective {s : Session} (h : s.phase = .objective) (line : String) :
    s.feed line =
      (((parseObjective line).map Prod.fst).mapError
        (.statement (s.lineNumber + 1) .objective)).map fun e =>
          { s with
            phase := .restrictions
            lineNumber := s.lineNumber + 1
            objective? := some e } := by
  rw [feed, step_of_objective h]
  cases parseObjective line <;> rfl

/-- White space before and after a line does not change what a session makes of it. -/
theorem feed_padded (s : Session) {line line' : String} (h : Padded line line') :
    AgreeUpToPlace (s.feed line) (s.feed line') := by
  have hblank := isBlank_padded h
  cases hphase : s.phase with
  | objective =>
    rw [feed_of_objective hphase, feed_of_objective hphase]
    exact (AgreeUpToPlace.of_mapError (parseObjective_padded h) _ _).map _
  | restrictions =>
    rw [feed, feed, step_of_restrictions hphase, step_of_restrictions hphase, hblank]
    split
    · exact .ok _
    · exact ((AgreeUpToPlace.of_mapError (parseRestriction_padded h) _ _).map _).map _
  | signRestrictions =>
    rw [feed, feed, step_of_signRestrictions hphase, step_of_signRestrictions hphase, hblank]
    split
    · cases s.objective? with
      | none => exact .missingObjective
      | some e => exact .ok _
    · exact ((AgreeUpToPlace.of_mapError (parseSignRestriction_padded h) _ _).map _).map _
  | assembled =>
    rw [feed_of_assembled hphase, feed_of_assembled hphase]
    exact .ok _

theorem feedAll_padded (s : Session) {lines lines' : List String}
    (h : List.Forall₂ Padded lines lines') :
    AgreeUpToPlace (s.feedAll lines) (s.feedAll lines') := by
  induction h generalizing s with
  | nil => exact .ok s
  | cons hline _ ih => exact (feed_padded s hline).bind ih

/-- Where a session ends does not depend on lines. -/
theorem agreeUpToPlace_finish (s : Session) : AgreeUpToPlace s.finish s.finish := by
  cases h : s.finish with
  | error e =>
    rw [eq_missingObjective_of_finish h]
    exact .missingObjective
  | ok m => exact .ok m

theorem readAll_padded (s : Session) {lines lines' : List String}
    (h : List.Forall₂ Padded lines lines') :
    AgreeUpToPlace (s.readAll lines) (s.readAll lines') :=
  (feedAll_padded s h).bind agreeUpToPlace_finish

/-! ## Line ends -/

/-- A run looks at nothing of the pieces but their lines. -/
theorem run_congr_of_lines (s : Session) (listener : Listener) (told : List Phase)
    {pieces pieces' : List (List UInt8)} (h : pieces'.map stripLineEnd = pieces.map stripLineEnd) :
    s.run listener told pieces' = s.run listener told pieces := by
  induction pieces generalizing s told pieces' with
  | nil => rw [List.map_eq_nil_iff.1 h]
  | cons piece pieces ih =>
    obtain ⟨piece', pieces', rfl, hpiece, hpieces⟩ := List.map_eq_cons_iff.1 h
    have hline : decodeLine? piece' = decodeLine? piece := by
      rw [decodeLine?, decodeLine?, hpiece]
    rw [run.eq_def, run.eq_def _ _ _ (piece :: pieces)]
    simp only [hline, ih _ _ hpieces]

end Session

theorem compileText_congr_of_lines {text text' : String} {lines : List (List Char)}
    (h : LinesOf '\n' '\r' text.toList lines) (h' : LinesOf '\n' '\r' text'.toList lines) :
    compileText text' = compileText text := by
  rw [compileText, compile, compileWith_ofBytes, compileText, compile, compileWith_ofBytes,
    toList_toByteArray, toList_toByteArray]
  refine Session.run_congr_of_lines _ _ _ ?_
  rw [(linesOf_encode h).map_stripLineEnd, (linesOf_encode h').map_stripLineEnd]

theorem compileText_withReturns {text : String} (h : ¬ ['\r', '\n'] <:+: text.toList) :
    compileText (.ofList (withReturns text.toList)) = compileText text := by
  obtain ⟨lines, hlines⟩ := exists_linesOf '\n' '\r' text.toList
  refine compileText_congr_of_lines hlines ?_
  rw [String.toList_ofList]
  exact hlines.withReturns h

/-- **White space around lines and the style of line ends do not change the outcome.** Lines with
    any white space before and after each of them come to the same model, or to an error in the same
    line and phase with the same fault, or both lack an objective. The same holds of texts that
    consist of such lines. A text that has no line feed after a carriage return comes to exactly the
    same, with the same messages, if each of its line feeds gets a carriage return before it. -/
theorem white_space_changes_no_outcome :
    (∀ lines lines' : List String, List.Forall₂ Padded lines lines' →
      AgreeUpToPlace (Session.new.readAll lines) (Session.new.readAll lines')) ∧
    (∀ (text text' : String) (lines lines' : List (List Char)),
      LinesOf '\n' '\r' text.toList lines → LinesOf '\n' '\r' text'.toList lines' →
        List.Forall₂ Padded (lines.map String.ofList) (lines'.map String.ofList) →
          AgreeUpToPlace (compileText text).result (compileText text').result) ∧
    ∀ text : String, ¬ ['\r', '\n'] <:+: text.toList →
      compileText (.ofList (withReturns text.toList)) = compileText text := by
  refine ⟨?_, ?_, ?_⟩
  · intro lines lines' h
    exact Session.readAll_padded Session.new h
  · intro text text' lines lines' hlines hlines' h
    rw [result_compileText hlines, result_compileText hlines']
    exact Session.readAll_padded Session.new h
  · intro text h
    exact compileText_withReturns h

end LinProg
