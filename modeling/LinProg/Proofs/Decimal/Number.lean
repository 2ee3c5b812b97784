import LinProg.Proofs.Decimal.Layout
import LinProg.Proofs.Decimal.Nearest

set_option autoImplicit false

/-! # Numbers in full

`Number` is the set of texts that `number?` is to take for a number, and `Number.Denotes` says which
number each of them is: of the digits with their power of ten the nearest one. The reader accepts
these texts and no others, with that number (`number?_eq_some_iff`). Nothing in the grammar refers
to the reader. -/

namespace LinProg.Numeral

open Text Binary64

/-! ## The grammar -/

/-- The digits of a number with the point among them, at either end or missing. -/
structure Mantissa where
  whole : List Char
  /-- The digits after the point, if there is a point. -/
  fraction : Option (List Char)
  whole_isDigit : ∀ c ∈ whole, c.isDigit = true
  fraction_isDigit : ∀ c ∈ fraction.getD [], c.isDigit = true
  nonempty : whole ++ fraction.getD [] ≠ []

namespace Mantissa

def fractionChars (m : Mantissa) : List Char :=
  (m.fraction.map ('.' :: ·)).getD []

def chars (m : Mantissa) : List Char :=
  m.whole ++ m.fractionChars

def value (m : Mantissa) : ℚ :=
  Nat.ofDigitChars 10 (m.whole ++ m.fraction.getD []) 0 / 10 ^ (m.fraction.getD []).length

end Mantissa

/-- A power of ten: the letter `e` in either case, a sign that may be missing, and digits. -/
structure Power where
  letter : Char
  sign : Option Sign
  digits : List Char
  letter_toLower : letter.toLower = 'e'
  digits_isDigit : ∀ c ∈ digits, c.isDigit = true
  digits_ne_nil : digits ≠ []

namespace Power

def chars (p : Power) : List Char :=
  p.letter :: ((p.sign.map Sign.char).toList ++ p.digits)

def exponent (p : Power) : Int :=
  (p.sign.getD .plus).apply (Nat.ofDigitChars 10 p.digits 0 : Int)

end Power

/-- A name of infinity, in letters of either case. -/
def IsInfinityName (name : List Char) : Prop :=
  name.map Char.toLower = "inf".toList ∨ name.map Char.toLower = "infinity".toList

/-- The name of no number, in letters of either case. -/
def IsNanName (name : List Char) : Prop :=
  name.map Char.toLower = "nan".toList

/-- A number without its sign: digits with a power of ten that may be missing, or a name. -/
inductive Unsigned where
  | decimal (mantissa : Mantissa) (power : Option Power)
  | infinity (name : List Char) (isName : IsInfinityName name)
  | nan (name : List Char) (isName : IsNanName name)

namespace Unsigned

def chars : Unsigned → List Char
  | .decimal mantissa power => mantissa.chars ++ (power.map Power.chars).getD []
  | .infinity name _ => name
  | .nan name _ => name

/-- Which number it is under a sign. -/
def Denotes (sign : Sign) : Unsigned → Binary64 → Prop
  | .decimal mantissa power, x =>
    ∃ rank, IsNearest (mantissa.value * 10 ^ (power.map Power.exponent).getD 0) rank ∧
      x = ofRank sign rank
  | .infinity .., x => x = .infinite sign
  | .nan .., x => x = .nan

end Unsigned

/-- A number with a sign that may be missing. -/
structure Number where
  sign : Option Sign
  body : Unsigned

namespace Number

def chars (n : Number) : List Char :=
  (n.sign.map Sign.char).toList ++ n.body.chars

/-- Which number it is. Without a sign it is positive. -/
def Denotes (n : Number) (x : Binary64) : Prop :=
  n.body.Denotes (n.sign.getD .plus) x

end Number

/-- The digits with the power of ten as one decimal. -/
def Mantissa.scaled (m : Mantissa) (power : Option Power) : Decimal :=
  (Decimal.ofDigits m.whole (m.fraction.getD [])).scale ((power.map Power.exponent).getD 0)

theorem Mantissa.value_scaled (m : Mantissa) (power : Option Power) :
    (m.scaled power).value = m.value * 10 ^ (power.map Power.exponent).getD 0 := by
  have hten : (10 : ℚ) ≠ 0 := by norm_num
  rw [scaled, Decimal.value, Decimal.scale, Decimal.ofDigits, zpow_add₀ hten, zpow_neg,
    zpow_natCast, value, ← mul_assoc, ← div_eq_mul_inv]

/-! ## Characters of a number -/

theorem isAlpha_of_mem_name {text name : List Char} (h : text.map Char.toLower = name)
    (hname : name.all Char.isAlpha = true) : ∀ c ∈ text, c.isAlpha = true := by
  intro c hc
  exact isAlpha_of_toLower (List.all_eq_true.1 hname _ (h ▸ List.mem_map_of_mem hc))

theorem IsInfinityName.isAlpha {name : List Char} (h : IsInfinityName name) :
    ∀ c ∈ name, c.isAlpha = true := by
  rcases h with h | h
  · exact isAlpha_of_mem_name h (by decide)
  · exact isAlpha_of_mem_name h (by decide)

theorem IsNanName.isAlpha {name : List Char} (h : IsNanName name) :
    ∀ c ∈ name, c.isAlpha = true :=
  isAlpha_of_mem_name h (by decide)

/-! ## Digits and powers of ten -/

theorem Power.isAlpha_letter (p : Power) : p.letter.isAlpha = true := by
  refine isAlpha_of_toLower ?_
  rw [p.letter_toLower]
  decide

theorem ends_isSign_digits {digits : List Char} (h : ∀ c ∈ digits, c.isDigit = true) :
    Ends isSign digits := by
  intro c hc
  exact not_isSign_of_isAlphanum (isAlphanum_of_isDigit (h c (List.mem_of_mem_head? hc)))

/-- The power of ten that is read is the one that is written. -/
theorem exponent?_eq_some_iff {text : List Char} {exponent : Int} :
    exponent? text = some exponent ↔
      ∃ power : Option Power, (power.map Power.chars).getD [] = text ∧
        (power.map Power.exponent).getD 0 = exponent := by
  constructor
  · intro h
    unfold exponent? at h
    split at h
    · cases h
      exact ⟨none, rfl, rfl⟩
    · next c text =>
      obtain ⟨sign, htext, hsign⟩ := exists_of_splitSign text
      dsimp only at h
      split at h
      · next hpower =>
        cases h
        obtain ⟨hletter, hne, hdigits⟩ := hpower
        refine ⟨some ⟨c, sign, (splitSign text).2, hletter, List.all_eq_true.1 hdigits,
          by simpa using hne⟩, ?_, ?_⟩
        · exact congrArg (c :: ·) htext
        · exact congrArg (Sign.apply · _) hsign
      · cases h
  · rintro ⟨power, rfl, rfl⟩
    cases power with
    | none => rfl
    | some p =>
      have hsplit := splitSign_optional p.sign (ends_isSign_digits p.digits_isDigit)
      have hall : p.digits.all Char.isDigit = true := List.all_eq_true.2 p.digits_isDigit
      have hne : ¬ p.digits.isEmpty = true := by simpa using p.digits_ne_nil
      simp only [Option.map_some, Option.getD_some, Power.chars, exponent?, hsplit]
      rw [if_pos ⟨p.letter_toLower, hne, hall⟩]
      rfl

/-- A power of ten does not continue the digits before it. -/
theorem ends_power (power : Option Power) :
    Ends Char.isDigit ((power.map Power.chars).getD []) ∧
      Ends (· == '.') ((power.map Power.chars).getD []) := by
  cases power with
  | none => exact ⟨ends_nil, ends_nil⟩
  | some p =>
    refine ⟨ends_cons.2 (not_isDigit_of_isAlpha p.isAlpha_letter), ends_cons.2 ?_⟩
    rw [beq_eq_false_iff_ne]
    intro hpoint
    have hletter := p.letter_toLower
    rw [hpoint] at hletter
    exact absurd hletter (by decide)

theorem splitFraction_chars (m : Mantissa) {text : List Char} (hdigit : Ends Char.isDigit text)
    (hpoint : Ends (· == '.') text) :
    splitFraction (m.fractionChars ++ text) = (m.fraction.getD [], text) := by
  rcases hf : m.fraction with _ | fraction
  · rw [Mantissa.fractionChars, hf]
    show splitFraction text = ([], text)
    unfold splitFraction
    split
    · simp at hpoint
    · rfl
  · have hdigits : ∀ c ∈ fraction, c.isDigit = true := by
      simpa [hf] using m.fraction_isDigit
    rw [Mantissa.fractionChars, hf]
    show (digits (fraction ++ text), afterDigits (fraction ++ text)) = (fraction, text)
    rw [digits_run hdigits hdigit, afterDigits_run hdigits hdigit]

theorem exists_of_splitFraction (text : List Char) :
    ∃ fraction : Option (List Char),
      (fraction.map ('.' :: ·)).getD [] ++ (splitFraction text).2 = text ∧
        fraction.getD [] = (splitFraction text).1 ∧
          ∀ c ∈ fraction.getD [], c.isDigit = true := by
  unfold splitFraction
  split
  · next text =>
    refine ⟨some (digits text), ?_, rfl, fun c hc => isDigit_of_mem_digits hc⟩
    exact congrArg ('.' :: ·) (digits_append_afterDigits text)
  · exact ⟨none, rfl, rfl, by simp⟩

/-- The digits that are read are the ones that are written. -/
theorem decimal?_eq_some_iff {text : List Char} {d : Decimal} :
    decimal? text = some d ↔
      ∃ (m : Mantissa) (power : Option Power),
        m.chars ++ (power.map Power.chars).getD [] = text ∧ m.scaled power = d := by
  constructor
  · intro h
    obtain ⟨fraction, hafter, hfraction, hdigits⟩ := exists_of_splitFraction (afterDigits text)
    simp only [decimal?] at h
    split at h
    · cases h
    · next hne =>
      obtain ⟨exponent, hpower, rfl⟩ := Option.map_eq_some_iff.1 h
      obtain ⟨power, hchars, rfl⟩ := exponent?_eq_some_iff.1 hpower
      refine ⟨⟨digits text, fraction, fun c hc => isDigit_of_mem_digits hc, hdigits, ?_⟩, power,
        ?_, ?_⟩
      · rw [hfraction]
        simpa using hne
      · rw [Mantissa.chars, Mantissa.fractionChars, hchars, List.append_assoc, hafter,
          digits_append_afterDigits]
      · exact congrArg (fun digits' => (Decimal.ofDigits (digits text) digits').scale _) hfraction
  · rintro ⟨m, power, rfl, rfl⟩
    obtain ⟨hdigit, hpoint⟩ := ends_power power
    have hwhole : Ends Char.isDigit (m.fractionChars ++ (power.map Power.chars).getD []) := by
      rw [Mantissa.fractionChars]
      rcases m.fraction with _ | fraction
      · exact hdigit
      · exact ends_cons.2 (by decide)
    have hne : ¬ (m.whole ++ m.fraction.getD []).isEmpty = true := by
      simpa [-List.append_eq_nil_iff] using m.nonempty
    simp only [decimal?, Mantissa.chars, List.append_assoc, digits_run m.whole_isDigit hwhole,
      afterDigits_run m.whole_isDigit hwhole, splitFraction_chars m hdigit hpoint]
    rw [if_neg hne, exponent?_eq_some_iff.2 ⟨power, rfl, rfl⟩]
    rfl

/-! ## Names -/

theorem IsNanName.not_isInfinityName {name : List Char} (h : IsNanName name) :
    ¬ IsInfinityName name := by
  intro hname
  rw [IsInfinityName, show name.map Char.toLower = "nan".toList from h] at hname
  exact absurd hname (by decide)

/-- The names that are read are the ones that are written. -/
theorem named?_eq_some_iff {sign : Sign} {text : List Char} {x : Binary64} :
    named? sign text = some x ↔
      IsInfinityName text ∧ x = .infinite sign ∨ IsNanName text ∧ x = .nan := by
  constructor
  · intro h
    simp only [named?] at h
    split at h
    · next hname =>
      cases h
      exact Or.inl ⟨hname, rfl⟩
    · split at h
      · next hname =>
        cases h
        exact Or.inr ⟨hname, rfl⟩
      · cases h
  · rintro (⟨hname, rfl⟩ | ⟨hname, rfl⟩)
    · exact if_pos hname
    · exact (if_neg hname.not_isInfinityName).trans (if_pos hname)

/-! ## Whole numbers -/

theorem Mantissa.ends_chars {p : Char → Bool} (m : Mantissa) (text : List Char)
    (hp : ∀ c, c.isDigit = true ∨ c = '.' → p c = false) : Ends p (m.chars ++ text) := by
  have hne := m.nonempty
  rw [chars, fractionChars]
  rcases hwhole : m.whole with _ | ⟨c, cs⟩
  · rcases hfraction : m.fraction with _ | fraction
    · simp [hwhole, hfraction] at hne
    · exact ends_cons.2 (hp '.' (Or.inr rfl))
  · exact ends_cons.2 (hp c (Or.inl (m.whole_isDigit c (by simp [hwhole]))))

/-- No sign follows the sign of a number. -/
theorem Unsigned.ends_isSign_chars (body : Unsigned) : Ends isSign body.chars := by
  have hname : ∀ name : List Char, (∀ c ∈ name, c.isAlpha = true) → Ends isSign name := by
    intro name halpha c hc
    exact not_isSign_of_isAlphanum (isAlphanum_of_isAlpha (halpha c (List.mem_of_mem_head? hc)))
  cases body with
  | decimal m power => exact m.ends_chars _ fun c => not_isSign_of_startsMagnitude
  | infinity name isName => exact hname name isName.isAlpha
  | nan name isName => exact hname name isName.isAlpha

/-- The nearest number is the one that the decimal is read as. -/
theorem Unsigned.denotes_decimal_iff {m : Mantissa} {power : Option Power} {sign : Sign}
    {x : Binary64} :
    (decimal m power).Denotes sign x ↔ (m.scaled power).toBinary64 sign = x := by
  obtain ⟨rank, hnearest, hread⟩ := (m.scaled power).exists_isNearest_toBinary64
  rw [m.value_scaled] at hnearest
  rw [hread]
  constructor
  · rintro ⟨rank', hnearest', rfl⟩
    rw [hnearest.unique hnearest']
  · rintro rfl
    exact ⟨rank, hnearest, rfl⟩

/-- Every number denotes some number. -/
theorem Number.exists_denotes (n : Number) : ∃ x, n.Denotes x := by
  obtain ⟨sign, body⟩ := n
  cases body with
  | decimal m power => exact ⟨_, Unsigned.denotes_decimal_iff.2 rfl⟩
  | infinity name isName => exact ⟨_, rfl⟩
  | nan name isName => exact ⟨_, rfl⟩

/-- **Numbers in full.** The reader takes the texts of numbers, and each for the number that it
    denotes. -/
theorem number?_eq_some_iff {text : List Char} {x : Binary64} :
    number? text = some x ↔ ∃ n : Number, n.chars = text ∧ n.Denotes x := by
  constructor
  · intro h
    obtain ⟨sign, htext, hsign⟩ := exists_of_splitSign text
    simp only [number?] at h
    cases hnamed : named? (splitSign text).1 (splitSign text).2 with
    | some y =>
      rw [hnamed] at h
      cases h
      rcases named?_eq_some_iff.1 hnamed with ⟨hname, hvalue⟩ | ⟨hname, hvalue⟩
      · exact ⟨⟨sign, .infinity _ hname⟩, htext, hvalue.trans (congrArg _ hsign.symm)⟩
      · exact ⟨⟨sign, .nan _ hname⟩, htext, hvalue⟩
    | none =>
      rw [hnamed] at h
      obtain ⟨d, hd, rfl⟩ := Option.map_eq_some_iff.1 h
      obtain ⟨m, power, hchars, rfl⟩ := decimal?_eq_some_iff.1 hd
      refine ⟨⟨sign, .decimal m power⟩, ?_, ?_⟩
      · rw [Number.chars, Unsigned.chars, hchars, htext]
      · exact Unsigned.denotes_decimal_iff.2 (by rw [hsign])
  · rintro ⟨⟨sign, body⟩, rfl, hx⟩
    rw [number?, Number.chars, splitSign_optional sign body.ends_isSign_chars]
    cases body with
    | infinity name isName => simp [Unsigned.chars, named?_eq_some_iff.2 (Or.inl ⟨isName, hx⟩)]
    | nan name isName => simp [Unsigned.chars, named?_eq_some_iff.2 (Or.inr ⟨isName, hx⟩)]
    | decimal m power =>
      have hname : Ends Char.isAlpha (m.chars ++ (power.map Power.chars).getD []) :=
        m.ends_chars _ fun c => not_isAlpha_of_startsMagnitude
      have hread : decimal? (m.chars ++ (power.map Power.chars).getD []) = some (m.scaled power) :=
        decimal?_eq_some_iff.2 ⟨m, power, rfl, rfl⟩
      simp [Unsigned.chars, named?_of_ends _ hname, hread, Unsigned.denotes_decimal_iff.1 hx]

example : number? "-Infinity".toList = some (.infinite .minus) := by decide

-- Neither a name that breaks off nor an exponent without digits is a number.
example : number? "infinit".toList = none ∧ number? "1e".toList = none := by decide

/-! ## White space -/

theorem not_isWhiteSpace_of_mem_sign {sign : Option Sign} {c : Char}
    (h : c ∈ (sign.map Sign.char).toList) : isWhiteSpace c = false := by
  rcases sign with _ | sign
  · cases h
  · rw [List.mem_singleton.1 h]
    exact isWhiteSpace_signChar sign

theorem Mantissa.not_isWhiteSpace_of_mem {m : Mantissa} {c : Char} (h : c ∈ m.chars) :
    isWhiteSpace c = false := by
  rcases List.mem_append.1 h with hwhole | hfraction
  · exact not_isWhiteSpace_of_isAlphanum (isAlphanum_of_isDigit (m.whole_isDigit c hwhole))
  · have hdigits := m.fraction_isDigit
    rw [fractionChars] at hfraction
    rcases hf : m.fraction with _ | fraction
    · rw [hf] at hfraction
      cases hfraction
    · rw [hf] at hfraction hdigits
      rcases List.mem_cons.1 hfraction with rfl | hmem
      · decide
      · exact not_isWhiteSpace_of_isAlphanum (isAlphanum_of_isDigit (hdigits c hmem))

theorem Power.not_isWhiteSpace_of_mem {p : Power} {c : Char} (h : c ∈ p.chars) :
    isWhiteSpace c = false := by
  rcases List.mem_cons.1 h with rfl | h
  · exact not_isWhiteSpace_of_isAlphanum (isAlphanum_of_isAlpha p.isAlpha_letter)
  · rcases List.mem_append.1 h with hsign | hdigits
    · exact not_isWhiteSpace_of_mem_sign hsign
    · exact not_isWhiteSpace_of_isAlphanum (isAlphanum_of_isDigit (p.digits_isDigit c hdigits))

/-- A number holds no white space. -/
theorem Number.not_isWhiteSpace_of_mem {n : Number} {c : Char} (h : c ∈ n.chars) :
    isWhiteSpace c = false := by
  have hletter : c.isAlpha = true → isWhiteSpace c = false := by
    intro halpha
    exact not_isWhiteSpace_of_isAlphanum (isAlphanum_of_isAlpha halpha)
  obtain ⟨sign, body⟩ := n
  rcases List.mem_append.1 h with hsign | hbody
  · exact not_isWhiteSpace_of_mem_sign hsign
  · cases body with
    | infinity name isName => exact hletter (isName.isAlpha c hbody)
    | nan name isName => exact hletter (isName.isAlpha c hbody)
    | decimal m power =>
      rcases List.mem_append.1 hbody with hmantissa | hpower
      · exact m.not_isWhiteSpace_of_mem hmantissa
      · rcases power with _ | p
        · cases hpower
        · exact p.not_isWhiteSpace_of_mem hpower

/-- The text of a number holds none, being read as the number. -/
theorem not_isWhiteSpace_of_mem_chars {x : Binary64} {c : Char} (h : c ∈ x.chars) :
    isWhiteSpace c = false := by
  obtain ⟨n, hn, -⟩ := number?_eq_some_iff.1 (number?_chars x)
  exact n.not_isWhiteSpace_of_mem (hn ▸ h)

end LinProg.Numeral
