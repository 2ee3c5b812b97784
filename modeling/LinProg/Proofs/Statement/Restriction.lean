import LinProg.Proofs.Decimal.Number
import LinProg.Proofs.Expression.Position
import LinProg.Proofs.Statement.Relation

set_option autoImplicit false

/-! # Restrictions as users write them

A line states a restriction if it starts with an expression, goes on with a relational sign and ends
with a number, white space around it. `RestrictionReading` says what comes of any line, in the order
of its parts: the first one that is missing is the fault, and its place is where the part before it
ends. `parseRestriction` does what it says (`restrictionReading_parseRestriction`,
`RestrictionReading.eq_parseRestriction`), and a bound that is also a magnitude is the same number
as the magnitude before a variable. -/

namespace LinProg

open Text Numeral Grammar

/-! ## The grammar -/

/-- The bound of a line's restriction is to be read at a position: before it are an expression, from
    the start of the line, and the longest relational sign that there is. -/
structure BoundAt (line : String) (e : Expression) (sign : RelationSign) (pos : Nat)
    (right : List Char) : Prop where
  expression : ∃ last, expressionAt line 0 = .ok (e, last) ∧
    StartsAt line last (sign.chars ++ right) ∧ last + byteLength sign.chars = pos
  longest : sign.IsLongest right

/-- What comes of a line that should state a restriction. -/
inductive RestrictionReading (line : String) : Except ParseError Restriction → Prop
  /-- The line does not start with an expression. -/
  | noExpression {err : ParseError} (h : expressionAt line 0 = .error err) :
      RestrictionReading line (.error err)
  /-- The expression is not followed by a relational sign. -/
  | noRelation {e : Expression} {last : Nat} {rest : List Char}
      (hexpression : expressionAt line 0 = .ok (e, last)) (hrest : StartsAt line last rest)
      (h : Ends startsRelation rest) :
      RestrictionReading line (.error ⟨.missingRelation, line, last⟩)
  /-- The relational sign is followed by something else than a number. -/
  | noBound {e : Expression} {sign : RelationSign} {pos : Nat} {right : List Char}
      (hbound : BoundAt line e sign pos right)
      (h : ∀ (before after : Space) (n : Number),
        before.chars ++ (n.chars ++ after.chars) ≠ right) :
      RestrictionReading line (.error ⟨.invalidBound, line, pos⟩)
  /-- The relational sign is followed by a number and nothing else. -/
  | accepted {e : Expression} {sign : RelationSign} {pos : Nat} {right : List Char}
      {before after : Space} {n : Number} {bound : Binary64}
      (hbound : BoundAt line e sign pos right)
      (hright : before.chars ++ (n.chars ++ after.chars) = right) (h : n.Denotes bound) :
      RestrictionReading line (.ok ⟨e, sign.relation, bound⟩)

/-! ## Bounds -/

/-- The white space around a number is not read. -/
theorem number?_trim_eq_some_iff {right : List Char} {x : Binary64} :
    number? (trim right) = some x ↔
      ∃ (before after : Space) (n : Number),
        before.chars ++ (n.chars ++ after.chars) = right ∧ n.Denotes x := by
  constructor
  · intro h
    obtain ⟨n, hn, hx⟩ := number?_eq_some_iff.1 h
    obtain ⟨before, after, hright⟩ := exists_of_trim right
    exact ⟨before, after, n, hn ▸ hright, hx⟩
  · rintro ⟨before, after, n, rfl, hx⟩
    rw [trim_spaces before after fun c => n.not_isWhiteSpace_of_mem]
    exact number?_eq_some_iff.2 ⟨n, rfl, hx⟩

theorem number?_trim_eq_none_iff {right : List Char} :
    number? (trim right) = none ↔
      ∀ (before after : Space) (n : Number), before.chars ++ (n.chars ++ after.chars) ≠ right := by
  constructor
  · intro h before after n hright
    obtain ⟨x, hx⟩ := n.exists_denotes
    rw [number?_trim_eq_some_iff.2 ⟨before, after, n, hright, hx⟩] at h
    cases h
  · intro h
    cases hread : number? (trim right) with
    | none => rfl
    | some x =>
      obtain ⟨before, after, n, hright, -⟩ := number?_trim_eq_some_iff.1 hread
      exact absurd hright (h before after n)

/-! ## The parts of a line -/

section Line

variable {line : String}

/-- The expression that a line starts with is the one that its restriction starts with. -/
theorem exists_of_expressionAt_ok {e : Expression} {last : Nat}
    (h : expressionAt line 0 = .ok (e, last)) :
    ∃ rest, readExpression line.toList = .ok (e, rest) ∧ StartsAt line last rest := by
  obtain ⟨s, hs, hsum, hlast⟩ := (expressionAt_eq_ok_iff line 0).1 h
  rw [textFrom_zero] at hs
  exact ⟨s.tail, readExpression_eq_ok_iff.2 ⟨s, hs, hsum, rfl⟩, hlast⟩

theorem exists_of_expressionAt_error {err : ParseError} (h : expressionAt line 0 = .error err) :
    ∃ unread, readExpression line.toList = .error unread ∧
      err = Failure.locate line ⟨.invalidVariable, unread⟩ := by
  unfold expressionAt at h
  rw [textFrom_zero] at h
  split at h
  · cases h
  · next unread hread =>
    cases h
    exact ⟨unread, hread, rfl⟩

/-! ## What is read of a line -/

theorem parseRestriction_of_noExpression {err : ParseError} (h : expressionAt line 0 = .error err) :
    parseRestriction line = .error err := by
  obtain ⟨unread, hread, rfl⟩ := exists_of_expressionAt_error h
  simp only [parseRestriction, readRestriction, hread]
  rfl

theorem parseRestriction_of_noRelation {e : Expression} {last : Nat} {rest : List Char}
    (h : expressionAt line 0 = .ok (e, last)) (hrest : StartsAt line last rest)
    (hends : Ends startsRelation rest) :
    parseRestriction line = .error ⟨.missingRelation, line, last⟩ := by
  obtain ⟨rest', hread, hrest'⟩ := exists_of_expressionAt_ok h
  obtain rfl := hrest.unique hrest'
  simp only [parseRestriction, readRestriction, hread, readRelation?_eq_none_iff.2 hends]
  rw [← hrest.offsetOf_eq]
  rfl

/-- Past the relational sign only the bound decides. -/
theorem BoundAt.parseRestriction_eq {e : Expression} {sign : RelationSign} {pos : Nat}
    {right : List Char} (h : BoundAt line e sign pos right) :
    parseRestriction line = match number? (trim right) with
      | none => .error ⟨.invalidBound, line, pos⟩
      | some bound => .ok ⟨e, sign.relation, bound⟩ := by
  obtain ⟨last, hexpression, hlast, rfl⟩ := h.expression
  obtain ⟨rest, hread, hrest⟩ := exists_of_expressionAt_ok hexpression
  obtain rfl := hlast.unique hrest
  have hrelation : readRelation? (sign.chars ++ right) = some (sign.relation, right) :=
    readRelation?_eq_some_iff.2 ⟨sign, rfl, rfl, h.longest⟩
  simp only [parseRestriction, readRestriction, hread, hrelation]
  rw [← hlast.append.offsetOf_eq]
  cases number? (trim right) <;> rfl

/-- Behind an expression there is a place for a bound or no relational sign. -/
theorem exists_boundAt {e : Expression} {last : Nat} (h : expressionAt line 0 = .ok (e, last)) :
    (∃ rest, StartsAt line last rest ∧ Ends startsRelation rest) ∨
      ∃ sign pos right, BoundAt line e sign pos right := by
  obtain ⟨rest, -, hrest⟩ := exists_of_expressionAt_ok h
  cases hrelation : readRelation? rest with
  | none => exact Or.inl ⟨rest, hrest, readRelation?_eq_none_iff.1 hrelation⟩
  | some r =>
    obtain ⟨relation, right⟩ := r
    obtain ⟨sign, rfl, -, hlongest⟩ := readRelation?_eq_some_iff.1 hrelation
    exact Or.inr ⟨sign, _, right, ⟨last, h, hrest, rfl⟩, hlongest⟩

/-- What comes of a line is what is read of it. -/
theorem restrictionReading_parseRestriction (line : String) :
    RestrictionReading line (parseRestriction line) := by
  cases hexpression : expressionAt line 0 with
  | error err =>
    rw [parseRestriction_of_noExpression hexpression]
    exact .noExpression hexpression
  | ok r =>
    obtain ⟨e, last⟩ := r
    rcases exists_boundAt hexpression with ⟨rest, hrest, hends⟩ | ⟨sign, pos, right, hbound⟩
    · rw [parseRestriction_of_noRelation hexpression hrest hends]
      exact .noRelation hexpression hrest hends
    · rw [hbound.parseRestriction_eq]
      cases hread : number? (trim right) with
      | none => exact .noBound hbound (number?_trim_eq_none_iff.1 hread)
      | some bound =>
        obtain ⟨before, after, n, hright, hn⟩ := number?_trim_eq_some_iff.1 hread
        exact .accepted hbound hright hn

theorem RestrictionReading.eq_parseRestriction {result : Except ParseError Restriction}
    (h : RestrictionReading line result) : parseRestriction line = result := by
  cases h with
  | noExpression hexpression => exact parseRestriction_of_noExpression hexpression
  | noRelation hexpression hrest hends =>
    exact parseRestriction_of_noRelation hexpression hrest hends
  | noBound hbound hnone => rw [hbound.parseRestriction_eq, number?_trim_eq_none_iff.2 hnone]
  | accepted hbound hright hn =>
    rw [hbound.parseRestriction_eq, number?_trim_eq_some_iff.2 ⟨_, _, _, hright, hn⟩]

/-! ## Bounds and coefficients -/

/-- A magnitude is a bound. -/
theorem BoundAt.parseRestriction_magnitude {e : Expression} {sign : RelationSign} {pos : Nat}
    {before after : Space} {m : Magnitude}
    (h : BoundAt line e sign pos (before.chars ++ (m.chars ++ after.chars))) :
    parseRestriction line = .ok ⟨e, sign.relation, m.decimal.toBinary64 .plus⟩ := by
  have hmagnitude : number? m.chars = some (m.decimal.toBinary64 .plus) := number?_magnitude none m
  obtain ⟨n, hn, hx⟩ := number?_eq_some_iff.1 hmagnitude
  rw [← hn] at h
  rw [h.parseRestriction_eq, number?_trim_eq_some_iff.2 ⟨before, after, n, rfl, hx⟩]

/-- A magnitude is the coefficient of the name after it. -/
theorem termAt_magnitude {pos : Nat} {m : Magnitude} {name : Name} {rest : List Char}
    (h : StartsAt line pos (m.chars ++ name.chars ++ rest)) (hends : Ends Char.isAlphanum rest) :
    termAt line pos = .ok (⟨.ofList name.chars, m.decimal.toBinary64 .plus⟩,
      pos + byteLength (m.chars ++ name.chars)) := by
  let t : Monomial := ⟨⟨none, some m, false⟩, name⟩
  have hchars : t.chars = m.chars ++ name.chars := by
    simp [t, Monomial.chars, Coefficient.chars, Coefficient.signChars, Coefficient.magnitudeChars,
      Coefficient.asteriskChars]
  have hread := readTerm_chars t hends
  rw [hchars] at hread
  rw [termAt, textFrom_of_startsAt h, hread, ← h.append.offsetOf_eq]
  rfl

end Line

/-- **Restrictions are read by their grammar.** An expression, the longest relational sign and a
    number with white space around it make up a restriction, whose bound is the nearest number. On
    any other line the fault is in the first part that is missing: that of the expression, a missing
    sign where the expression ends, or an invalid bound right after the sign. A magnitude is the
    same number as a bound and before a variable. -/
theorem parseRestriction_grammar (line : String) :
    (∀ result, parseRestriction line = result ↔ RestrictionReading line result) ∧
      ∀ (e : Expression) (sign : RelationSign) (pos : Nat) (before after : Space) (m : Magnitude),
        BoundAt line e sign pos (before.chars ++ (m.chars ++ after.chars)) →
          ∃ bound, parseRestriction line = .ok ⟨e, sign.relation, bound⟩ ∧
            ∀ (other : String) (start : Nat) (name : Name) (rest : List Char),
              StartsAt other start (m.chars ++ name.chars ++ rest) → Ends Char.isAlphanum rest →
                termAt other start = .ok (⟨.ofList name.chars, bound⟩,
                  start + byteLength (m.chars ++ name.chars)) := by
  refine ⟨?_, ?_⟩
  · intro result
    constructor
    · rintro rfl
      exact restrictionReading_parseRestriction line
    · intro h
      exact h.eq_parseRestriction
  · intro e sign pos before after m hbound
    refine ⟨_, hbound.parseRestriction_magnitude, ?_⟩
    intro other start name rest hstarts hends
    exact termAt_magnitude hstarts hends

end LinProg
