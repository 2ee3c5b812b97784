import LinProg.Proofs.Expression.Position
import LinProg.Proofs.Expression.Source
import LinProg.Proofs.Statement.ZeroFree

set_option autoImplicit false

/-! # Well-formed expressions

Whatever terms are added up and however often the total is negated on the way, no expression that
comes of it holds a zero (`Reachable.zeroFree`). Of an expression that is read from a text more can
be said: its variables are identifiers of the text. Identifiers are found in a text without reading
it as an expression: they are what is left of the longest runs of letters and digits behind their
first digits (`Name.OccursIn`). `WellFormedIn` is both together.

Other than zero, every number is a coefficient of an expression that is read
(`exists_expressionAt_coeff?_iff`), the infinite ones and the one that is no number included: they
come of magnitudes that are too large. -/

namespace LinProg

open Text Numeral Grammar

/-! ## Expressions that can be made -/

namespace Expression

/-- The expressions that adding terms and negating make of the one without terms. -/
inductive Reachable : Expression → Prop
  | empty : Reachable ∅
  | accumulate {e : Expression} (h : Reachable e) (t : Term) : Reachable (e.accumulate t)
  | negate {e : Expression} (h : Reachable e) : Reachable e.negate

/-- No expression that can be made holds a zero. -/
theorem Reachable.zeroFree {e : Expression} (h : e.Reachable) : e.ZeroFree := by
  induction h with
  | empty => exact zeroFree_empty
  | accumulate _ t ih => exact ih.accumulate t
  | negate _ ih => exact ih.negate

/-- A sum has no other variables than its terms. -/
theorem mem_names_of_sum {terms : List Term} {name : String} (h : name ∈ (sum terms).names) :
    name ∈ terms.map (·.name) := by
  by_contra hname
  rw [mem_names, sum, coeff?_foldl_of_not_mem ∅ hname, coeff?_empty] at h
  cases h

end Expression

/-! ## Identifiers -/

/-- A name is an identifier of a text: of a run of letters and digits in the text, as long as it can
    be, it is what follows the first digits. -/
def Grammar.Name.OccursIn (n : Name) (text : List Char) : Prop :=
  ∃ before number after : List Char, text = before ++ (number ++ (n.chars ++ after)) ∧
    (∀ c ∈ number, c.isDigit = true) ∧
      Ends Char.isAlphanum before.reverse ∧ Ends Char.isAlphanum after

/-- An identifier of a text is one of every text that ends in it, unless its run goes on to the
    left. -/
theorem Grammar.Name.OccursIn.append_left {n : Name} {text : List Char} (h : n.OccursIn text)
    (hends : Ends Char.isAlphanum text) (first : List Char) : n.OccursIn (first ++ text) := by
  obtain ⟨before, number, after, rfl, hnumber, hbefore, hafter⟩ := h
  have hne : before.reverse ≠ [] := by
    rintro hnil
    rw [List.reverse_eq_nil_iff] at hnil
    subst hnil
    -- The text would start with a digit of the run or with the name.
    cases number with
    | nil =>
      have hfirst := ends_cons.1 hends
      rw [isAlphanum_of_isAlpha n.first_isAlpha] at hfirst
      cases hfirst
    | cons c number =>
      have hfirst := ends_cons.1 hends
      rw [isAlphanum_of_isDigit (hnumber c List.mem_cons_self)] at hfirst
      cases hfirst
  refine ⟨first ++ before, number, after, by rw [List.append_assoc], hnumber, ?_, hafter⟩
  rwa [List.reverse_append, Ends, List.head?_append_of_ne_nil _ hne]

/-- A magnitude ends in digits, before which there is nothing or the point. -/
theorem Numeral.Magnitude.exists_number (m : Magnitude) :
    ∃ first number, m.chars = first ++ number ∧ (∀ c ∈ number, c.isDigit = true) ∧
      Ends Char.isAlphanum first.reverse := by
  by_cases hf : m.fraction = []
  · refine ⟨[], m.whole, ?_, m.whole_isDigit, ends_nil⟩
    rw [Magnitude.chars, Magnitude.fractionChars_of_eq_nil hf, List.append_nil, List.nil_append]
  · refine ⟨m.whole ++ ['.'], m.fraction, ?_, m.fraction_isDigit, ?_⟩
    · rw [Magnitude.chars, Magnitude.fractionChars_of_ne_nil hf, List.append_assoc,
        List.singleton_append]
    · rw [List.reverse_concat]
      exact ends_cons.2 (by decide)

/-- A coefficient ends in digits, of which there may be none, and no letter or digit comes before
    them. -/
theorem Grammar.Coefficient.exists_number (c : Coefficient) :
    ∃ first number, c.chars = first ++ number ∧ (∀ d ∈ number, d.isDigit = true) ∧
      Ends Char.isAlphanum first.reverse := by
  have hsign : Ends Char.isAlphanum c.signChars.reverse := by
    rcases hs : c.sign with _ | s
    · simp [Coefficient.signChars, hs]
    · simpa [Coefficient.signChars, hs] using isAlphanum_signChar s
  cases ha : c.asterisk with
  | true =>
    refine ⟨c.chars, [], (List.append_nil _).symm, by simp, ?_⟩
    rw [Coefficient.chars, Coefficient.asteriskChars, ha, if_pos rfl, ← List.append_assoc,
      List.reverse_concat]
    exact ends_cons.2 (by decide)
  | false =>
    rcases hm : c.magnitude with _ | m
    · refine ⟨c.signChars, [], ?_, by simp, hsign⟩
      simp [Coefficient.chars, Coefficient.magnitudeChars, Coefficient.asteriskChars, ha, hm]
    · obtain ⟨first, number, hchars, hnumber, hfirst⟩ := m.exists_number
      refine ⟨c.signChars ++ first, number, ?_, hnumber, ?_⟩
      · simp [Coefficient.chars, Coefficient.magnitudeChars, Coefficient.asteriskChars, ha, hm,
          hchars]
      · rw [List.reverse_append]
        exact hfirst.append hsign

/-- The name of a term is an identifier, unless the run goes on on either side of the term. -/
theorem Grammar.Monomial.occursIn (t : Monomial) {before after : List Char}
    (hbefore : Ends Char.isAlphanum before.reverse) (hafter : Ends Char.isAlphanum after) :
    t.name.OccursIn (before ++ (t.chars ++ after)) := by
  obtain ⟨first, number, hchars, hnumber, hfirst⟩ := t.coefficient.exists_number
  refine ⟨before ++ first, number, after, ?_, hnumber, ?_, hafter⟩
  · rw [Monomial.chars, hchars]
    simp only [List.append_assoc]
  · rw [List.reverse_append]
    exact hfirst.append hbefore

def Grammar.Split.monomials (s : Split) : List Monomial :=
  s.first :: s.links.map Link.monomial

theorem Grammar.Split.occursIn_of_mem_monomials {s : Split} {t : Monomial}
    (h : t ∈ s.monomials) : t.name.OccursIn s.chars := by
  rcases List.mem_cons.1 h with rfl | h
  · have hleading : Ends Char.isAlphanum s.leading.chars.reverse := by
      have := ends_isAlphanum_space s.leading.reverse ends_nil
      rwa [List.append_nil] at this
    exact s.first.occursIn hleading (ends_isAlphanum_links s.links s.name_ends)
  · obtain ⟨l, hl, rfl⟩ := List.mem_map.1 h
    obtain ⟨links, more, hlinks⟩ := List.append_of_mem hl
    have hafter := ends_isAlphanum_links more s.name_ends
    -- Before a term that is not the first there is its sign, with white space after it.
    have hbefore : Ends Char.isAlphanum
        (s.leading.chars ++ (s.first.chars ++ (links.flatMap Link.chars ++
          (l.before.chars ++ l.sign.char :: l.between.chars)))).reverse := by
      simp only [List.reverse_append, List.reverse_cons, List.append_assoc]
      exact ends_isAlphanum_sign l.between.reverse l.sign _
    have hoccurs := l.monomial.occursIn hbefore hafter
    simpa [Split.chars, Split.moreChars, hlinks, Link.chars] using hoccurs

/-- The variables of a split's sum are named by its terms. -/
theorem Grammar.Split.exists_of_mem_names_sum {s : Split} {name : String}
    (h : name ∈ (Expression.sum s.terms).names) :
    ∃ t ∈ s.monomials, String.ofList t.name.chars = name := by
  have hname := Expression.mem_names_of_sum h
  rw [Split.terms, List.map_cons, List.map_map, List.mem_cons, List.mem_map] at hname
  rcases hname with rfl | ⟨l, hl, rfl⟩
  · exact ⟨s.first, List.mem_cons_self, rfl⟩
  · exact ⟨l.monomial, List.mem_cons_of_mem _ (List.mem_map_of_mem hl), rfl⟩

/-! ## Expressions that are read -/

/-- Whether an expression has no zeros and only variables that are identifiers of a text. -/
structure Expression.WellFormedIn (e : Expression) (text : List Char) : Prop where
  zeroFree : e.ZeroFree
  names : ∀ name ∈ e.names, ∃ n : Name, n.OccursIn text ∧ String.ofList n.chars = name

theorem wellFormedIn_of_readExpression {text rest : List Char} {e : Expression}
    (h : readExpression text = .ok (e, rest)) : e.WellFormedIn text := by
  refine ⟨zeroFree_of_readExpression h, ?_⟩
  obtain ⟨s, rfl, rfl, -⟩ := readExpression_eq_ok_iff.1 h
  intro name hname
  obtain ⟨t, ht, rfl⟩ := s.exists_of_mem_names_sum hname
  exact ⟨t.name, s.occursIn_of_mem_monomials ht, rfl⟩

theorem wellFormedIn_of_expressionAt {line : String} {pos : Nat} {e : Expression} {last : Nat}
    (h : expressionAt line pos = .ok (e, last)) : e.WellFormedIn (textFrom line pos) := by
  obtain ⟨s, hs, hsum, -⟩ := (expressionAt_eq_ok_iff line pos).1 h
  exact wellFormedIn_of_readExpression (readExpression_eq_ok_iff.2 ⟨s, hs, hsum, rfl⟩)

/-! ## The coefficients that there are -/

theorem Binary64.isZero_eq_false_iff {x : Binary64} : x.isZero = false ↔ x ≠ 0 ∧ x ≠ -0 := by
  rw [Bool.eq_false_iff, ne_eq, ← not_or, not_iff_not]
  constructor
  · intro h
    cases x with
    | finite sign rank =>
      have hrank : rank = ⟨0, by decide⟩ := Fin.ext (by simpa [isZero] using h)
      subst hrank
      cases sign with
      | plus => exact .inl rfl
      | minus => exact .inr rfl
    | infinite sign => cases h
    | nan => cases h
  · rintro (rfl | rfl) <;> rfl

/-- The text of a split is a line on which its sum is read. -/
theorem Grammar.Split.exists_expressionAt (s : Split) :
    ∃ last, expressionAt (.ofList s.chars) 0 = .ok (.sum s.terms, last) := by
  have htext : IsTextAt (.ofList s.chars) 0 s.chars := .inl ⟨[], String.toList_ofList, rfl⟩
  exact Split.exists_expressionAt_of_isTextAt htext

/-- A text of nothing but a term and links. -/
def Grammar.Split.ofLinks (first : Monomial) (links : List Link) : Split :=
  ⟨blanks 0, first, links, blanks 0, [], by simp, ends_nil⟩

/-- The number that a term stands for is read as a coefficient, unless it is zero. -/
theorem Grammar.Monomial.exists_expressionAt (t : Monomial)
    (h : t.term.coefficient.isZero = false) :
    ∃ line e last, expressionAt line 0 = .ok (e, last) ∧
      e.coeff? t.term.name = some t.term.coefficient := by
  obtain ⟨last, hread⟩ := (Split.ofLinks t []).exists_expressionAt
  exact ⟨_, _, last, hread, (Expression.terms_sum_singleton h).2⟩

/-- There are magnitudes that are larger than every finite number. -/
theorem Numeral.exists_magnitude_infinite :
    ∃ m : Magnitude, m.decimal.toBinary64 .plus = .infinite .plus := by
  have hdigit : ∀ c ∈ List.replicate 309 '9', c.isDigit = true := by
    intro c hc
    rw [List.eq_of_mem_replicate hc]
    decide
  refine ⟨⟨List.replicate 309 '9', [], hdigit, by simp, .inl (List.cons_ne_nil _ _)⟩, ?_⟩
  show (Decimal.ofDigits (List.replicate 309 '9') []).toBinary64 .plus = .infinite .plus
  decide +kernel

theorem Grammar.exists_monomial_infinite (sign : Sign) :
    ∃ t : Monomial, t.term = ⟨"x", .infinite sign⟩ := by
  obtain ⟨m, hm⟩ := exists_magnitude_infinite
  refine ⟨⟨⟨some sign, some m, false⟩, ⟨'x', [], by decide, by simp⟩⟩, ?_⟩
  simp only [Monomial.term, Coefficient.value, Coefficient.magnitudeValue, Option.map_some,
    Option.getD_some, hm]
  cases sign <;> rfl

/-- The numbers that are a coefficient of some expression that is read are all but zero. -/
theorem exists_expressionAt_coeff?_iff {c : Binary64} :
    (∃ line pos e last name, expressionAt line pos = .ok (e, last) ∧ e.coeff? name = some c) ↔
      c ≠ 0 ∧ c ≠ -0 := by
  rw [← Binary64.isZero_eq_false_iff]
  constructor
  · rintro ⟨line, pos, e, last, name, h, hc⟩
    exact (wellFormedIn_of_expressionAt h).zeroFree name c hc
  · intro hzero
    cases c with
    | finite sign rank =>
      have hwritable : (Term.mk "x" (.finite sign rank)).Writable :=
        ⟨(by decide : isNameText "x".toList = true), rfl, hzero⟩
      obtain ⟨t, -, ht⟩ := exists_monomial_source hwritable
      obtain ⟨line, e, last, hread, hc⟩ := t.exists_expressionAt (ht ▸ hzero)
      exact ⟨line, 0, e, last, _, hread, ht ▸ hc⟩
    | infinite sign =>
      obtain ⟨t, ht⟩ := exists_monomial_infinite sign
      obtain ⟨line, e, last, hread, hc⟩ := t.exists_expressionAt (ht ▸ hzero)
      exact ⟨line, 0, e, last, _, hread, ht ▸ hc⟩
    | nan =>
      -- An infinity is taken from itself.
      obtain ⟨t, ht⟩ := exists_monomial_infinite .plus
      obtain ⟨last, hread⟩ :=
        (Split.ofLinks t [⟨blanks 0, .minus, blanks 0, t⟩]).exists_expressionAt
      refine ⟨_, 0, _, last, "x", hread, ?_⟩
      simp only [Split.ofLinks, Split.terms, List.map_cons, List.map_nil, Link.term, Term.signed,
        ht, Expression.sum, List.foldl_cons, List.foldl_nil, Expression.coeff?_accumulate,
        Expression.coeff?_empty, if_true]
      decide

end LinProg
