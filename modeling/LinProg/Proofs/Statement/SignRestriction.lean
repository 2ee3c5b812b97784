import LinProg.Proofs.Expression.Sum
import LinProg.Proofs.Statement.Failure

set_option autoImplicit false

/-! # Sign restrictions as users write them

A line states a sign restriction if it consists of a name, a relational sign for "at least" and the
digit `0`, white space around each of them. `SignRestrictionReading` says what comes of any line:
the first part that is missing is the fault, and whatever else is said behind the name is no sign
restriction. `parseSignRestriction` does what it says
(`signRestrictionReading_parseSignRestriction`, `SignRestrictionReading.eq_parseSignRestriction`).

A sign restriction is also a restriction, of the variable alone and by `+0`. That the two readers
agree on it is not a matter of course, since the one compares a digit and the other reads a number
(`parseRestriction_of_parseSignRestriction`). -/

namespace LinProg

open Text Numeral Grammar

/-! ## The grammar -/

/-- A line starts with a name, white space around it, and goes on with a text at a position. The
    name and the white space are as long as they can be. -/
structure NamedAt (line : String) (name : Name) (pos : Nat) (rest : List Char) : Prop where
  parts : ∃ leading gap : Space,
    line.toList = leading.chars ++ (name.chars ++ (gap.chars ++ rest)) ∧
    byteLength (leading.chars ++ (name.chars ++ gap.chars)) = pos ∧
    Ends Char.isAlphanum (gap.chars ++ rest)
  ends : Ends isWhiteSpace rest

/-- The right side of a sign restriction: the digit `0` between white space. -/
def IsZeroBound (right : List Char) : Prop :=
  ∃ before after : Space, before.chars ++ (['0'] ++ after.chars) = right

/-- What comes of a line that should state a sign restriction. -/
inductive SignRestrictionReading (line : String) : Except ParseError SignRestriction → Prop
  /-- No name starts where the white space at the start of the line ends. -/
  | noName {leading : Space} {rest : List Char} (hline : line.toList = leading.chars ++ rest)
      (hspace : Ends isWhiteSpace rest) (hname : Ends Char.isAlpha rest) :
      SignRestrictionReading line (.error ⟨.invalidVariable, line, byteLength leading.chars⟩)
  /-- The name is not followed by a relational sign. -/
  | noRelation {name : Name} {pos : Nat} {rest : List Char} (hname : NamedAt line name pos rest)
      (h : Ends startsRelation rest) :
      SignRestrictionReading line (.error ⟨.missingRelation, line, pos⟩)
  /-- The name is followed by another relation or another right side. -/
  | notNonnegative {name : Name} {sign : RelationSign} {pos : Nat} {right : List Char}
      (hname : NamedAt line name pos (sign.chars ++ right)) (hlongest : sign.IsLongest right)
      (h : ¬ (sign.relation = .atLeast ∧ IsZeroBound right)) :
      SignRestrictionReading line (.error ⟨.invalidSignRestriction, line, pos⟩)
  /-- The name is followed by a sign for "at least", the digit and nothing else. -/
  | accepted {name : Name} {sign : RelationSign} {pos : Nat} {right : List Char}
      (hname : NamedAt line name pos (sign.chars ++ right)) (hsign : sign.relation = .atLeast)
      (hright : IsZeroBound right) :
      SignRestrictionReading line (.ok ⟨.ofList name.chars⟩)

/-! ## Right sides -/

theorem isZeroBound_iff {right : List Char} : IsZeroBound right ↔ trim right = ['0'] :=
  (trim_eq_iff (List.forall_mem_singleton.2 (by decide))).symm

/-- The right side of a sign restriction does not continue the relational sign. -/
theorem IsZeroBound.isLongest {right : List Char} (h : IsZeroBound right) (sign : RelationSign) :
    sign.IsLongest right := by
  obtain ⟨before, after, rfl⟩ := h
  refine RelationSign.isLongest_iff.2 fun _ => ?_
  rcases hbefore : before.chars with _ | ⟨c, more⟩
  · exact ends_cons.2 (by decide)
  · refine ends_cons.2 (beq_eq_false_iff_ne.2 ?_)
    rintro rfl
    exact absurd (before.all_white '=' (by simp [hbefore])) (by decide)

/-! ## What is read of a line -/

section Line

variable {line : String}

theorem parseSignRestriction_of_noName {leading : Space} {rest : List Char}
    (hline : line.toList = leading.chars ++ rest) (hspace : Ends isWhiteSpace rest)
    (hname : Ends Char.isAlpha rest) :
    parseSignRestriction line =
      .error ⟨.invalidVariable, line, byteLength leading.chars⟩ := by
  rw [parseSignRestriction, readSignRestriction, hline, skipWhiteSpace_space leading hspace,
    readName?_eq_none_iff.2 hname, ← offsetOf_eq hline]
  rfl

/-- Behind the name only the relational sign and the right side decide. -/
theorem NamedAt.parseSignRestriction_eq {name : Name} {pos : Nat} {rest : List Char}
    (h : NamedAt line name pos rest) :
    parseSignRestriction line = match readRelation? rest with
      | none => .error ⟨.missingRelation, line, pos⟩
      | some (relation, right) =>
        if relation = .atLeast ∧ trim right = ['0'] then .ok ⟨.ofList name.chars⟩
        else .error ⟨.invalidSignRestriction, line, pos⟩ := by
  obtain ⟨leading, gap, hline, hpos, halnum⟩ := h.parts
  have hfirst : Ends isWhiteSpace (name.chars ++ (gap.chars ++ rest)) :=
    ends_cons.2 (not_isWhiteSpace_of_isAlphanum (isAlphanum_of_isAlpha name.first_isAlpha))
  have hoffset : offsetOf line rest = pos := by
    rw [← hpos]
    exact offsetOf_eq (by rw [hline]; simp)
  rw [parseSignRestriction, readSignRestriction, hline, skipWhiteSpace_space leading hfirst,
    readName?_chars name halnum]
  simp only [skipWhiteSpace_space gap h.ends]
  cases readRelation? rest with
  | none => simp only [Except.mapError, Failure.locate, hoffset]
  | some r =>
    dsimp only
    split <;> simp only [Except.mapError, Failure.locate, hoffset]

/-- A line starts with a name behind white space or with none. -/
theorem exists_namedAt (line : String) :
    (∃ (leading : Space) (rest : List Char), line.toList = leading.chars ++ rest ∧
      Ends isWhiteSpace rest ∧ Ends Char.isAlpha rest) ∨
      ∃ name pos rest, NamedAt line name pos rest := by
  obtain ⟨leading, hline, hspace⟩ := exists_of_skipWhiteSpace line.toList
  cases hname : readName? (skipWhiteSpace line.toList) with
  | none => exact Or.inl ⟨leading, _, hline.symm, hspace, readName?_eq_none_iff.1 hname⟩
  | some r =>
    obtain ⟨name, hchars, -, halnum⟩ := exists_of_readName? hname
    obtain ⟨gap, hgap, hends⟩ := exists_of_skipWhiteSpace r.2
    rw [← hgap] at hchars halnum
    exact Or.inr ⟨name, _, skipWhiteSpace r.2,
      ⟨leading, gap, by rw [hchars, hline], rfl, halnum⟩, hends⟩

/-- What comes of a line is what is read of it. -/
theorem signRestrictionReading_parseSignRestriction (line : String) :
    SignRestrictionReading line (parseSignRestriction line) := by
  rcases exists_namedAt line with ⟨leading, rest, hline, hspace, hname⟩ | ⟨name, pos, rest, hname⟩
  · rw [parseSignRestriction_of_noName hline hspace hname]
    exact .noName hline hspace hname
  · rw [hname.parseSignRestriction_eq]
    cases hrelation : readRelation? rest with
    | none => exact .noRelation hname (readRelation?_eq_none_iff.1 hrelation)
    | some r =>
      obtain ⟨sign, rfl, hsign, hlongest⟩ := readRelation?_eq_some_iff.1 hrelation
      dsimp only
      split
      · next h => exact .accepted hname (hsign.trans h.1) (isZeroBound_iff.2 h.2)
      · next h =>
        refine .notNonnegative hname hlongest fun hzero => h ?_
        exact ⟨hsign.symm.trans hzero.1, isZeroBound_iff.1 hzero.2⟩

theorem SignRestrictionReading.eq_parseSignRestriction {result : Except ParseError SignRestriction}
    (h : SignRestrictionReading line result) : parseSignRestriction line = result := by
  cases h with
  | noName hline hspace hname => exact parseSignRestriction_of_noName hline hspace hname
  | noRelation hname hends =>
    rw [hname.parseSignRestriction_eq, readRelation?_eq_none_iff.2 hends]
  | notNonnegative hname hlongest h =>
    rw [hname.parseSignRestriction_eq, readRelation?_eq_some_iff.2 ⟨_, rfl, rfl, hlongest⟩]
    exact if_neg fun hzero => h ⟨hzero.1, isZeroBound_iff.2 hzero.2⟩
  | accepted hname hsign hright =>
    rw [hname.parseSignRestriction_eq,
      readRelation?_eq_some_iff.2 ⟨_, rfl, rfl, hright.isLongest _⟩]
    exact if_pos ⟨hsign, isZeroBound_iff.1 hright⟩

/-! ## Sign restrictions as restrictions -/

/-- A relational sign ends the expression before it. -/
theorem stopsAt_relationSign (sign : RelationSign) (text : List Char) :
    ∀ c ∈ (sign.chars ++ text).head?, stopsAt c = true := by
  cases sign <;> simp [RelationSign.chars, stopsAt, isWhiteSpace, whiteSpaceRanges]

/-- A name alone is an expression: its variable once. -/
theorem readExpression_name (leading : Space) (name : Name) {gap : Space} {rest : List Char}
    (hstops : ∀ c ∈ rest.head?, stopsAt c = true)
    (halnum : Ends Char.isAlphanum (gap.chars ++ rest)) :
    readExpression (leading.chars ++ (name.chars ++ (gap.chars ++ rest))) =
      .ok (.sum [⟨.ofList name.chars, .one⟩], rest) :=
  readExpression_eq_ok_iff.2
    ⟨⟨leading, ⟨⟨none, none, false⟩, name⟩, [], gap, rest, hstops, halnum⟩, rfl, rfl, rfl⟩

/-- What is read as a sign restriction can also be read as a restriction. -/
theorem parseRestriction_of_parseSignRestriction {s : SignRestriction}
    (h : parseSignRestriction line = .ok s) :
    ∃ e, parseRestriction line = .ok ⟨e, .atLeast, 0⟩ ∧ e.names = [s.name] ∧
      e.coeff? s.name = some .one := by
  have hreading := signRestrictionReading_parseSignRestriction line
  rw [h] at hreading
  cases hreading with
  | @accepted name sign pos right hname hsign hright =>
    obtain ⟨leading, gap, hline, -, halnum⟩ := hname.parts
    have hread := readExpression_name leading name (stopsAt_relationSign sign right) halnum
    have hrelation : readRelation? (sign.chars ++ right) = some (.atLeast, right) :=
      readRelation?_eq_some_iff.2 ⟨sign, rfl, hsign, hright.isLongest sign⟩
    have hzero : number? ['0'] = some 0 := by decide
    refine ⟨.sum [⟨.ofList name.chars, .one⟩], ?_, Expression.terms_sum_singleton rfl⟩
    simp only [parseRestriction, hline, readRestriction, hread, hrelation,
      isZeroBound_iff.1 hright, hzero]
    rfl

end Line

/-- **Sign restrictions are read by their grammar.** A name, a relational sign for "at least" and
    the digit `0`, with white space around them, make up a sign restriction. On any other line the
    fault is a missing name where the leading white space ends, a missing sign where the white space
    behind the name ends, or else that something else is stated there. What is read as a sign
    restriction is read as a restriction too: the variable alone is at least `+0`. -/
theorem parseSignRestriction_grammar (line : String) :
    (∀ result, parseSignRestriction line = result ↔ SignRestrictionReading line result) ∧
      ∀ s, parseSignRestriction line = .ok s →
        ∃ e, parseRestriction line = .ok ⟨e, .atLeast, 0⟩ ∧ e.names = [s.name] ∧
          e.coeff? s.name = some .one := by
  refine ⟨?_, ?_⟩
  · intro result
    constructor
    · rintro rfl
      exact signRestrictionReading_parseSignRestriction line
    · intro h
      exact h.eq_parseSignRestriction
  · intro s h
    exact parseRestriction_of_parseSignRestriction h

end LinProg
