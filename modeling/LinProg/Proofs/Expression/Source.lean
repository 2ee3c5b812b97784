import LinProg.Proofs.Decimal.Layout
import LinProg.Proofs.Expression.Reading
import LinProg.Proofs.Expression.Sum

set_option autoImplicit false

/-! # Expressions as input

An expression written the way a user types it in: each magnitude right before its variable, the
first term under its own sign and the others joined by signs between spaces. The reader gives the
expression back (`readExpression_source`), because what is written is a split of the grammar whose
terms are the terms of the expression.

An expression without terms cannot be typed in as such. It is written `0x`, and the sum of that one
term forgets it again. -/

namespace LinProg

open Text Numeral Grammar

/-! ## Written form -/

/-- Whether a text is a variable's name: a letter of ASCII and then letters and digits of ASCII. -/
def isNameText : List Char → Bool
  | c :: text => c.isAlpha && text.all Char.isAlphanum
  | [] => false

/-- The sign that a number is written with. -/
def Binary64.sign : Binary64 → Sign
  | .finite sign _ => sign
  | .infinite sign => sign
  | .nan => .plus

namespace Term

/-- Whether the grammar has a text for a term: the name is one, and the coefficient is finite and
    not zero. -/
structure Writable (t : Term) : Prop where
  name : isNameText t.name.toList = true
  finite : t.coefficient.isFinite = true
  nonzero : t.coefficient.isZero = false

instance (t : Term) : Decidable t.Writable :=
  decidable_of_iff (isNameText t.name.toList = true ∧ t.coefficient.isFinite = true ∧
    t.coefficient.isZero = false) ⟨fun h => ⟨h.1, h.2.1, h.2.2⟩, fun h => ⟨h.1, h.2, h.3⟩⟩

def source (t : Term) : List Char :=
  t.coefficient.chars ++ t.name.toList

def linkSource (t : Term) : List Char :=
  ' ' :: t.coefficient.sign.char :: ' ' :: (t.coefficient.abs.chars ++ t.name.toList)

end Term

namespace Expression

/-- Whether all terms are writable. -/
def Writable (e : Expression) : Prop :=
  ∀ t ∈ e.terms, t.Writable

instance (e : Expression) : Decidable e.Writable :=
  inferInstanceAs (Decidable (∀ t ∈ e.terms, t.Writable))

def source (e : Expression) : List Char :=
  match e.terms with
  | [] => "0x".toList
  | t :: terms => t.source ++ terms.flatMap Term.linkSource

end Expression

/-! ## Parts of the grammar -/

theorem exists_name {name : String} (h : isNameText name.toList = true) :
    ∃ n : Name, n.chars = name.toList := by
  cases hname : name.toList with
  | nil => simp [hname, isNameText] at h
  | cons c text =>
    rw [hname, isNameText, Bool.and_eq_true, List.all_eq_true] at h
    exact ⟨⟨c, text, h.1, h.2⟩, rfl⟩

def blanks (n : Nat) : Space :=
  ⟨List.replicate n ' ', fun c hc => by rw [List.eq_of_mem_replicate hc]; decide⟩

/-- What is written for a magnitude and a name is a term of the grammar, under any sign. -/
theorem exists_monomial {t : Term} (h : t.Writable) (sign? : Option Sign) :
    ∃ m : Monomial,
      m.chars = (sign?.map Sign.char).toList ++ (t.coefficient.abs.chars ++ t.name.toList) ∧
        m.term = ⟨t.name, (sign?.getD .plus).apply t.coefficient.abs⟩ := by
  obtain ⟨n, hn⟩ := exists_name h.name
  have hfinite := h.finite
  cases hc : t.coefficient with
  | nan => simp [hc, Binary64.isFinite] at hfinite
  | infinite sign => simp [hc, Binary64.isFinite] at hfinite
  | finite sign rank =>
    obtain ⟨m, hchars, -, hread⟩ := Binary64.exists_magnitude rank
    refine ⟨⟨⟨sign?, some m, false⟩, n⟩, ?_, ?_⟩
    · simp [Monomial.chars, Coefficient.chars, Coefficient.signChars, Coefficient.magnitudeChars,
        Coefficient.asteriskChars, hchars, hn, Binary64.abs, Binary64.chars, Binary64.signChars]
    · simp [Monomial.term, Coefficient.value, Coefficient.magnitudeValue, hread, hn, Binary64.abs]

/-- A finite number is its magnitude under its sign. -/
theorem sign_apply_abs {x : Binary64} (h : x.isFinite = true) : x.sign.apply x.abs = x := by
  cases x with
  | nan => cases h
  | infinite sign => cases h
  | finite sign rank => cases sign <;> rfl

/-- A finite number is written as its sign, if that is `-`, and its magnitude. -/
theorem chars_of_isFinite {x : Binary64} (h : x.isFinite = true) :
    x.chars = Binary64.signChars x.sign ++ x.abs.chars := by
  cases x with
  | nan => cases h
  | infinite sign => cases h
  | finite sign rank => rfl

/-- The sign of a first term, of which only `-` is written. -/
def writtenSign : Sign → Option Sign
  | .plus => none
  | .minus => some .minus

theorem signChars_eq (sign : Sign) :
    Binary64.signChars sign = ((writtenSign sign).map Sign.char).toList := by
  cases sign <;> rfl

theorem getD_writtenSign (sign : Sign) : (writtenSign sign).getD .plus = sign := by
  cases sign <;> rfl

theorem exists_monomial_source {t : Term} (h : t.Writable) :
    ∃ m : Monomial, m.chars = t.source ∧ m.term = t := by
  obtain ⟨m, hchars, hterm⟩ := exists_monomial h (writtenSign t.coefficient.sign)
  rw [← signChars_eq, ← List.append_assoc, ← chars_of_isFinite h.finite] at hchars
  rw [getD_writtenSign, sign_apply_abs h.finite] at hterm
  exact ⟨m, hchars, hterm⟩

theorem exists_link_source {t : Term} (h : t.Writable) :
    ∃ l : Link, l.chars = t.linkSource ∧ l.term = t := by
  obtain ⟨m, hchars, hterm⟩ := exists_monomial h none
  refine ⟨⟨blanks 1, t.coefficient.sign, blanks 1, m⟩, ?_, ?_⟩
  · rw [Link.chars, hchars]
    rfl
  · rw [Link.term, hterm]
    exact congrArg (Term.mk t.name) (sign_apply_abs h.finite)

theorem exists_links_source {terms : List Term} (h : ∀ t ∈ terms, t.Writable) :
    ∃ links : List Link, links.flatMap Link.chars = terms.flatMap Term.linkSource ∧
      links.map Link.term = terms := by
  induction terms with
  | nil => exact ⟨[], rfl, rfl⟩
  | cons t terms ih =>
    obtain ⟨l, hl, hterm⟩ := exists_link_source (h t (by simp))
    obtain ⟨links, hlinks, hterms⟩ := ih fun u hu => h u (List.mem_cons_of_mem _ hu)
    exact ⟨l :: links, by rw [List.flatMap_cons, List.flatMap_cons, hl, hlinks],
      by rw [List.map_cons, hterm, hterms]⟩

/-! ## Whole expressions -/

namespace Expression

def zeroMonomial : Monomial :=
  ⟨⟨none, some ⟨['0'], [], by simp, by simp, Or.inl (by simp)⟩, false⟩,
    ⟨'x', [], by decide, by simp⟩⟩

theorem sum_zeroMonomial : sum [zeroMonomial.term] = ∅ := by
  apply ext_coeff?
  intro name
  have hzero : addTo none zeroMonomial.term.coefficient = none := by decide
  rw [sum, List.foldl_cons, List.foldl_nil, coeff?_accumulate, coeff?_empty, hzero, ite_self]

theorem Writable.zeroFree {e : Expression} (h : e.Writable) : e.ZeroFree := by
  intro name c hc
  exact (h ⟨name, c⟩ (mem_terms.2 hc)).nonzero

variable {e : Expression} {tail : List Char}

/-- What is written for an expression is a split whose terms add up to the expression. -/
theorem exists_split_source (h : e.Writable) (leading trailing : Nat)
    (hstops : ∀ c ∈ tail.head?, stopsAt c = true) (hends : Ends Char.isAlphanum tail) :
    ∃ s : Split,
      s.chars = (blanks leading).chars ++ (e.source ++ ((blanks trailing).chars ++ tail)) ∧
        s.tail = tail ∧ sum s.terms = e := by
  have hname := ends_isAlphanum_space (blanks trailing) hends
  have hsum := sum_terms h.zeroFree
  rw [Writable] at h
  rw [source]
  cases ht : e.terms with
  | nil =>
    -- Nothing adds up to an expression without terms, and neither does `0x`.
    refine ⟨⟨blanks leading, zeroMonomial, [], blanks trailing, tail, hstops, hname⟩, rfl, rfl, ?_⟩
    rw [ht] at hsum
    exact sum_zeroMonomial.trans hsum
  | cons t terms =>
    rw [ht] at h hsum
    obtain ⟨m, hchars, hterm⟩ := exists_monomial_source (h t (by simp))
    obtain ⟨links, hlinks, hterms⟩ :=
      exists_links_source fun u hu => h u (List.mem_cons_of_mem _ hu)
    refine ⟨⟨blanks leading, m, links, blanks trailing, tail, hstops, hname⟩, ?_, rfl, ?_⟩
    · rw [Split.chars, Split.moreChars, hchars, hlinks, List.append_assoc]
    · rw [Split.terms, hterm, hterms, hsum]

/-- **A written expression is read back**, up to what ends it and whatever the spaces around it. -/
theorem readExpression_source (h : e.Writable) (leading trailing : Nat)
    (hstops : ∀ c ∈ tail.head?, stopsAt c = true) (hends : Ends Char.isAlphanum tail) :
    readExpression ((blanks leading).chars ++ (e.source ++ ((blanks trailing).chars ++ tail))) =
      .ok (e, tail) := by
  obtain ⟨s, hchars, htail, hsum⟩ := exists_split_source h leading trailing hstops hends
  exact readExpression_eq_ok_iff.2 ⟨s, hchars, hsum, htail⟩

end Expression

end LinProg
