import LinProg.Proofs.Expression.Reading
import LinProg.Proofs.Expression.Sum
import LinProg.Statement.Reader

set_option autoImplicit false

/-! # Objectives in two directions

An objective to be made large is read as the same objective to be made small with all coefficients
negated. The two keywords have the same length, so that everything else about the two lines is the
same: whether they can be read, where the objective ends, and otherwise what is wrong and where
(`dualObjectives_parseObjective`). -/

namespace LinProg

open Text Grammar

/-- The keyword with which a direction is written. -/
def Direction.keyword : Direction → List Char
  | .maximize => ['m', 'a', 'x']
  | .minimize => ['m', 'i', 'n']

/-- A line with the keyword of a direction behind white space, and what comes after the keyword. -/
def objectiveLine (leading : Space) (body : List Char) (d : Direction) : String :=
  .ofList (leading.chars ++ (d.keyword ++ body))

/-- Whether two expressions have the same variables with opposite coefficients. -/
structure Expression.Opposite (e e' : Expression) : Prop where
  names : e.names = e'.names
  coeff? : ∀ name, e.coeff? name = (e'.coeff? name).map (-·)

theorem Expression.opposite_negate (e : Expression) : e.negate.Opposite e where
  names := Std.ExtTreeMap.keys_map
  coeff? := coeff?_negate e

theorem readDirection?_keyword (d : Direction) (body : List Char) :
    readDirection? (d.keyword ++ body) = if endsKeyword body then some (d, body) else none := by
  cases d <;> rfl

/-- A keyword ends where the text does and before white space. -/
theorem endsKeyword_iff {text : List Char} :
    endsKeyword text = true ↔ ∀ c ∈ text.head?, isWhiteSpace c = true := by
  cases text <;> simp [endsKeyword]

/-- Only a keyword that ends is read as one. -/
theorem readDirection?_eq_some_iff {text body : List Char} {d : Direction} :
    readDirection? text = some (d, body) ↔ d.keyword ++ body = text ∧ endsKeyword body = true := by
  constructor
  · intro h
    unfold readDirection? at h
    split at h
    · split at h
      · next hends =>
        cases h
        exact ⟨rfl, hends⟩
      · cases h
    · split at h
      · next hends =>
        cases h
        exact ⟨rfl, hends⟩
      · cases h
    · cases h
  · rintro ⟨rfl, hends⟩
    rw [readDirection?_keyword, if_pos hends]

/-- What is read behind white space and a keyword. -/
theorem readObjective_keyword (leading : Space) (body : List Char) (d : Direction) :
    readObjective (leading.chars ++ (d.keyword ++ body)) =
      if endsKeyword body then
        match readExpression body with
        | .error unread => .error ⟨.invalidVariable, unread⟩
        | .ok (e, rest) => .ok (d.toMinimize e, rest)
      else .error ⟨.missingDirection, d.keyword ++ body⟩ := by
  have hends : Ends isWhiteSpace (d.keyword ++ body) := by
    cases d <;> exact ends_cons.2 (by decide)
  rw [readObjective, skipWhiteSpace_space leading hends, readDirection?_keyword]
  cases endsKeyword body <;> rfl

theorem byteLength_keyword (d : Direction) : byteLength d.keyword = 3 := by
  cases d <;> rfl

/-- A text has the same position at the end of either line. -/
theorem offsetOf_objectiveLine (leading : Space) (body unread : List Char) (d : Direction) :
    offsetOf (objectiveLine leading body d) unread =
      byteLength leading.chars + (3 + byteLength body) - byteLength unread := by
  rw [offsetOf, objectiveLine, String.toList_ofList, byteLength_append, byteLength_append,
    byteLength_keyword]

/-- What the readings of two lines have in common, of which the first is to be made large and the
    second to be made small: opposite objectives that end at the same position, or the same fault at
    the same position. -/
inductive DualObjectives (line line' : String) :
    Except ParseError (Expression × List Char) → Except ParseError (Expression × List Char) → Prop
  | read {e e' : Expression} {rest rest' : List Char} (hopposite : e.Opposite e')
      (hend : offsetOf line rest = offsetOf line' rest') :
      DualObjectives line line' (.ok (e, rest)) (.ok (e', rest'))
  | failed (fault : Fault) (offset : Nat) :
      DualObjectives line line' (.error ⟨fault, line, offset⟩) (.error ⟨fault, line', offset⟩)

variable (leading : Space) (body : List Char)

/-- Failures with the same fault and as much unread text. -/
theorem dualObjectives_locate {f f' : Failure} (hfault : f.fault = f'.fault)
    (hunread : byteLength f.unread = byteLength f'.unread) :
    DualObjectives (objectiveLine leading body .maximize) (objectiveLine leading body .minimize)
      (.error (f.locate (objectiveLine leading body .maximize)))
      (.error (f'.locate (objectiveLine leading body .minimize))) := by
  rw [Failure.locate, Failure.locate, offsetOf_objectiveLine, offsetOf_objectiveLine, hfault,
    hunread]
  exact .failed _ _

theorem dualObjectives_parseObjective :
    DualObjectives (objectiveLine leading body .maximize) (objectiveLine leading body .minimize)
      (parseObjective (objectiveLine leading body .maximize))
      (parseObjective (objectiveLine leading body .minimize)) := by
  have hparse : ∀ d, parseObjective (objectiveLine leading body d) =
      (readObjective (leading.chars ++ (d.keyword ++ body))).mapError
        (·.locate (objectiveLine leading body d)) := by
    intro d
    rw [parseObjective]
    simp only [objectiveLine, String.toList_ofList]
  rw [hparse, hparse, readObjective_keyword, readObjective_keyword]
  by_cases hkeyword : endsKeyword body = true
  · rw [if_pos hkeyword, if_pos hkeyword]
    cases readExpression body with
    | error unread => exact dualObjectives_locate leading body rfl rfl
    | ok r =>
      refine .read (Expression.opposite_negate r.1) ?_
      rw [offsetOf_objectiveLine, offsetOf_objectiveLine]
  · rw [if_neg hkeyword, if_neg hkeyword]
    refine dualObjectives_locate leading body rfl ?_
    simp only [byteLength_append, byteLength_keyword]

end LinProg
