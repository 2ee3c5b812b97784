import LinProg.Proofs.Expression.Position
import LinProg.Proofs.Statement.Direction

set_option autoImplicit false

/-! # Objectives as users write them

A line states an objective if it starts with the keyword of a direction, white space before and
after it, and goes on with an expression; what comes after the expression is dropped.
`ObjectiveReading` says what comes of any line: without a keyword that ends there the direction is
missing, and behind the keyword the expression decides. `parseObjective` does what it says
(`objectiveReading_parseObjective`, `ObjectiveReading.eq_parseObjective`).

Since an expression never ends where it goes on, the line that is cut off where the expression ends
is read in the same way, and nothing is dropped any more (`exists_parseObjective_kept`). -/

namespace LinProg

open Text Grammar

/-! ## The grammar -/

/-- A line starts with the keyword of a direction, white space before it, and goes on with a text at
    a position. The keyword is followed by white space or by nothing. -/
structure DirectionAt (line : String) (d : Direction) (pos : Nat) (body : List Char) : Prop where
  keyword : ∃ leading : Space, line.toList = leading.chars ++ (d.keyword ++ body) ∧
    byteLength (leading.chars ++ d.keyword) = pos
  follows : ∀ c ∈ body.head?, isWhiteSpace c = true

/-- What comes of a line that should state an objective. -/
inductive ObjectiveReading (line : String) : Except ParseError (Expression × List Char) → Prop
  /-- No keyword starts where the white space at the start of the line ends, or it goes on. -/
  | noDirection {leading : Space} {rest : List Char} (hline : line.toList = leading.chars ++ rest)
      (hspace : Ends isWhiteSpace rest) (h : ∀ d pos body, ¬ DirectionAt line d pos body) :
      ObjectiveReading line (.error ⟨.missingDirection, line, byteLength leading.chars⟩)
  /-- The keyword is not followed by an expression. -/
  | noExpression {d : Direction} {pos : Nat} {body : List Char} {offset : Nat}
      (hdirection : DirectionAt line d pos body)
      (h : expressionAt line pos = .error ⟨.invalidVariable, line, offset⟩) :
      ObjectiveReading line (.error ⟨.invalidVariable, line, offset⟩)
  /-- The keyword is followed by white space and an expression. -/
  | accepted {d : Direction} {pos : Nat} {body : List Char} {e : Expression} {last : Nat}
      {dropped : List Char} (hdirection : DirectionAt line d pos body) (hbody : body ≠ [])
      (hexpression : expressionAt line pos = .ok (e, last))
      (hlast : StartsAt line last dropped) :
      ObjectiveReading line (.ok (d.toMinimize e, dropped))

/-! ## What is read of a line -/

section Line

variable {line : String}

theorem DirectionAt.startsAt {d : Direction} {pos : Nat} {body : List Char}
    (h : DirectionAt line d pos body) : StartsAt line pos body := by
  obtain ⟨leading, hline, hpos⟩ := h.keyword
  exact ⟨leading.chars ++ d.keyword, by rw [hline, List.append_assoc], hpos⟩

/-- Behind the keyword only the expression decides. -/
theorem DirectionAt.parseObjective_eq {d : Direction} {pos : Nat} {body : List Char}
    (h : DirectionAt line d pos body) :
    parseObjective line = match expressionAt line pos with
      | .error err => .error err
      | .ok (e, last) => .ok (d.toMinimize e, textFrom line last) := by
  obtain ⟨leading, hline, -⟩ := h.keyword
  unfold parseObjective expressionAt
  rw [hline, readObjective_keyword, if_pos (endsKeyword_iff.2 h.follows),
    textFrom_of_startsAt h.startsAt]
  cases hread : readExpression body with
  | error unread => rfl
  | ok r =>
    obtain ⟨s, rfl, -, hrest⟩ := readExpression_eq_ok_iff.1 hread
    have hsuffix : r.2 <:+ line.toList := by
      rw [← hrest]
      exact s.tail_suffix.trans (textFrom_of_startsAt h.startsAt ▸ textFrom_suffix line pos)
    have hlast := textFrom_of_startsAt ((startsAt_iff hsuffix).2 rfl)
    simp only [Except.mapError, hlast]

theorem parseObjective_of_noDirection {leading : Space} {rest : List Char}
    (hline : line.toList = leading.chars ++ rest) (hspace : Ends isWhiteSpace rest)
    (h : ∀ d pos body, ¬ DirectionAt line d pos body) :
    parseObjective line = .error ⟨.missingDirection, line, byteLength leading.chars⟩ := by
  have hnone : readDirection? rest = none := by
    rw [Option.eq_none_iff_forall_ne_some]
    rintro ⟨d, body⟩ hread
    obtain ⟨hkeyword, hends⟩ := readDirection?_eq_some_iff.1 hread
    exact h d _ body ⟨⟨leading, hkeyword ▸ hline, rfl⟩, endsKeyword_iff.1 hends⟩
  rw [parseObjective, readObjective, hline, skipWhiteSpace_space leading hspace, hnone,
    ← offsetOf_eq hline]
  rfl

/-- What comes of a line is what is read of it. -/
theorem objectiveReading_parseObjective (line : String) :
    ObjectiveReading line (parseObjective line) := by
  by_cases h : ∃ d pos body, DirectionAt line d pos body
  · obtain ⟨d, pos, body, h⟩ := h
    rw [h.parseObjective_eq]
    cases hexpression : expressionAt line pos with
    | error err =>
      obtain ⟨k, -, offset, -, rfl⟩ := (expressionAt_eq_error_iff line pos).1 hexpression
      exact .noExpression h hexpression
    | ok r =>
      obtain ⟨s, hs, -, hlast⟩ := (expressionAt_eq_ok_iff line pos).1 hexpression
      have hbody : s.chars = body := hs.trans (textFrom_of_startsAt h.startsAt)
      dsimp only
      rw [textFrom_of_startsAt hlast]
      exact .accepted h (hbody ▸ s.chars_ne_nil) hexpression hlast
  · have hnone : ∀ d pos body, ¬ DirectionAt line d pos body := by
      intro d pos body hdirection
      exact h ⟨d, pos, body, hdirection⟩
    obtain ⟨leading, hline, hspace⟩ := exists_of_skipWhiteSpace line.toList
    rw [parseObjective_of_noDirection hline.symm hspace hnone]
    exact .noDirection hline.symm hspace hnone

theorem ObjectiveReading.eq_parseObjective {result : Except ParseError (Expression × List Char)}
    (h : ObjectiveReading line result) : parseObjective line = result := by
  cases h with
  | noDirection hline hspace h => exact parseObjective_of_noDirection hline hspace h
  | noExpression hdirection h => rw [hdirection.parseObjective_eq, h]
  | accepted hdirection hbody hexpression hlast =>
    rw [hdirection.parseObjective_eq, hexpression]
    dsimp only
    rw [textFrom_of_startsAt hlast]

/-! ## Lines without a tail -/

/-- The line that is cut off where its objective ends states the same objective, in full. -/
theorem exists_parseObjective_kept {e : Expression} {dropped : List Char}
    (h : parseObjective line = .ok (e, dropped)) :
    ∃ kept, line.toList = kept ++ dropped ∧ parseObjective (.ofList kept) = .ok (e, []) := by
  have hreading := objectiveReading_parseObjective line
  rw [h] at hreading
  cases hreading with
  | @accepted d pos body e last dropped hdirection hbody hexpression hlast =>
    obtain ⟨leading, hline, -⟩ := hdirection.keyword
    obtain ⟨s, hs, rfl, htail⟩ := (expressionAt_eq_ok_iff line pos).1 hexpression
    obtain rfl := hlast.unique htail
    have hbody : s.expressionChars ++ s.tail = body := by
      rw [s.expressionChars_append_tail, hs, textFrom_of_startsAt hdirection.startsAt]
    have hkeyword : endsKeyword s.expressionChars = true := by
      rw [endsKeyword_iff]
      intro c hc
      refine hdirection.follows c ?_
      rw [← hbody, List.head?_append, Option.mem_def.1 hc]
      rfl
    refine ⟨leading.chars ++ (d.keyword ++ s.expressionChars), ?_, ?_⟩
    · rw [hline, ← hbody]
      simp only [List.append_assoc]
    · rw [parseObjective, String.toList_ofList, readObjective_keyword, if_pos hkeyword,
        s.readExpression_expressionChars]
      rfl

end Line

end LinProg
