import LinProg.Json.Writer
import LinProg.Proofs.Decimal.Layout
import LinProg.Proofs.Json.Reader

set_option autoImplicit false

/-! # Numbers in JSON texts

A written number is a sign, a magnitude without zeros in front of other digits, and a power of ten
where one is stated. Such a text is read up to its end unless the text that follows continues it
(`readNumber?_chars`). What is read is the integer that was written, or the finite number that was:
the shortest decimal in any of the three layouts says the same as the decimal itself. -/

namespace LinProg.Json

open Text Numeral Binary64

/-! ## Parts of a number -/

/-- Whether a character, standing after a number, would belong to it. -/
def continuesNumber (c : Char) : Bool :=
  c.isDigit || c == '.' || c.toLower == 'e'

theorem ends_isDigit {text : List Char} (h : Ends continuesNumber text) : Ends Char.isDigit text :=
  h.mono fun c hc => by simp [continuesNumber, hc]

theorem ends_point {text : List Char} (h : Ends continuesNumber text) : Ends (· == '.') text :=
  h.mono fun c hc => by simp [continuesNumber, hc]

def signOf (n : Int) : Sign :=
  if n < 0 then .minus else .plus

theorem signOf_apply_natAbs (n : Int) : (signOf n).apply (n.natAbs : Int) = n := by
  unfold signOf
  split
  · rw [Sign.apply]
    omega
  · rw [Sign.apply]
    omega

/-- A power of ten as it is written, with its sign always. -/
def powerChars : Option Int → List Char
  | none => []
  | some power => 'e' :: (signOf power).char :: Nat.toDigits 10 power.natAbs

theorem isDigit_of_mem_toDigits {n : Nat} {c : Char} (h : c ∈ Nat.toDigits 10 n) :
    c.isDigit = true :=
  Nat.isDigit_of_mem_toDigits (by decide) (by decide) h

theorem ends_isDigit_powerChars (power : Option Int) {text : List Char}
    (h : Ends continuesNumber text) : Ends Char.isDigit (powerChars power ++ text) := by
  cases power with
  | none => exact ends_isDigit h
  | some power => exact ends_cons.2 (by decide)

theorem ends_point_powerChars (power : Option Int) {text : List Char}
    (h : Ends continuesNumber text) : Ends (· == '.') (powerChars power ++ text) := by
  cases power with
  | none => exact ends_point h
  | some power => exact ends_cons.2 (by decide)

theorem optionally_readPower? (power : Option Int) {text : List Char}
    (h : Ends continuesNumber text) :
    optionally readPower? (powerChars power ++ text) = (power, text) := by
  cases power with
  | none =>
    have hnone : readPower? text = none := by
      cases text with
      | nil => rfl
      | cons c text =>
        have hc : c.toLower ≠ 'e' := by
          have := ends_cons.1 h
          simp only [continuesNumber, Bool.or_eq_false_iff, beq_eq_false_iff_ne] at this
          exact this.2
        simp only [readPower?, if_neg (fun hand : _ ∧ _ => hc hand.1)]
    rw [powerChars, List.nil_append, optionally, hnone]
  | some power =>
    have hread : readPower? (powerChars (some power) ++ text) = some (power, text) := by
      simp only [powerChars, List.cons_append, readPower?, splitSign_signChar,
        digits_run (fun _ => isDigit_of_mem_toDigits) (ends_isDigit h),
        afterDigits_run (fun _ => isDigit_of_mem_toDigits) (ends_isDigit h),
        Nat.ofDigitChars_ten_toDigits, signOf_apply_natAbs]
      exact if_pos ⟨by decide, by simp⟩
    rw [optionally, hread]

/-- The digits after a point, if there are any. -/
def fraction? (m : Magnitude) : Option (List Char) :=
  if m.fraction = [] then none else some m.fraction

theorem optionally_readFraction? (m : Magnitude) {text : List Char}
    (hdigit : Ends Char.isDigit text) (hpoint : Ends (· == '.') text) :
    optionally readFraction? (m.fractionChars ++ text) = (fraction? m, text) := by
  by_cases hf : m.fraction = []
  · rw [Magnitude.fractionChars_of_eq_nil hf, List.nil_append, optionally,
      readFraction?_eq_none hpoint, fraction?, if_pos hf]
  · rw [Magnitude.fractionChars_of_ne_nil hf, List.cons_append, optionally,
      readFraction?_point hf m.fraction_isDigit hdigit, fraction?, if_neg hf]

theorem splitMinus_signChars (sign : Sign) {c : Char} (text : List Char) (h : c.isDigit = true) :
    splitMinus (signChars sign ++ c :: text) = (sign, c :: text) := by
  cases sign with
  | minus => rfl
  | plus =>
    have hc : c ≠ '-' := by
      rintro rfl
      exact absurd h (by decide)
    rw [signChars, List.nil_append, splitMinus]
    intro _ heq
    exact hc (List.cons.inj heq).1

/-- A number is read up to its end. -/
theorem readNumber?_chars (sign : Sign) {m : Magnitude} (power : Option Int) {text : List Char}
    (hwhole : isWhole m.whole = true) (h : Ends continuesNumber text) :
    readNumber? (signChars sign ++ (m.chars ++ (powerChars power ++ text))) =
      (ofParts? sign m.whole (fraction? m) power).map (·, text) := by
  have hdigit := ends_isDigit_powerChars power h
  have hpoint := ends_point_powerChars power h
  have hstop := m.ends_isDigit_fractionChars hdigit
  have hne : m.whole ≠ [] := by
    intro hnil
    rw [hnil] at hwhole
    cases hwhole
  have hsplit : splitMinus (signChars sign ++ (m.chars ++ (powerChars power ++ text))) =
      (sign, m.whole ++ (m.fractionChars ++ (powerChars power ++ text))) := by
    obtain ⟨c, cs, hcs, hc⟩ := exists_cons_chars hne
    rw [← List.append_assoc m.whole, ← Magnitude.chars, hcs]
    exact splitMinus_signChars sign _ hc
  simp only [readNumber?, hsplit, digits_run m.whole_isDigit hstop,
    afterDigits_run m.whole_isDigit hstop, optionally_readFraction? m hdigit hpoint,
    optionally_readPower? power h, hwhole, if_true]

/-! ## Digits before the point -/

/-- A number other than zero is not written with a zero in front. -/
theorem head?_toDigits_ne {n : Nat} (h : 0 < n) : (Nat.toDigits 10 n).head? ≠ some '0' := by
  induction n using Nat.strongRecOn with
  | _ n ih =>
    by_cases hlt : n < 10
    · have hdigit : ∀ d, d < 10 → 0 < d → Nat.digitChar d ≠ '0' := by decide
      rw [Nat.toDigits_of_lt_base hlt, List.head?_cons]
      exact fun heq => hdigit n hlt h (Option.some.inj heq)
    · have hpos : 0 < n / 10 := Nat.div_pos (Nat.not_lt.1 hlt) (by decide)
      have hfirst := ih (n / 10) (Nat.div_lt_self h (by decide)) hpos
      obtain ⟨c, cs, hcs⟩ := List.exists_cons_of_ne_nil (Nat.toDigits_ne_nil : _ ≠ [])
      rw [hcs] at hfirst
      rwa [Nat.toDigits_of_base_le (by decide) (Nat.not_lt.1 hlt), hcs]

theorem isWhole_of_head?_ne {whole : List Char} (hne : whole ≠ [])
    (h : whole = ['0'] ∨ whole.head? ≠ some '0') : isWhole whole = true := by
  rcases h with rfl | hhead
  · rfl
  · unfold isWhole
    split
    · exact absurd rfl hne
    · exact absurd rfl hhead
    · rfl

theorem isWhole_toDigits (n : Nat) : isWhole (Nat.toDigits 10 n) = true := by
  apply isWhole_of_head?_ne Nat.toDigits_ne_nil
  rcases Nat.eq_zero_or_pos n with rfl | hpos
  · exact Or.inl (Nat.toDigits_zero 10)
  · exact Or.inr (head?_toDigits_ne hpos)

/-! ## Integers -/

theorem readNumber?_integerChars (n : Int) {text : List Char} (h : Ends continuesNumber text) :
    readNumber? (integerChars n ++ text) = some (.integer n, text) := by
  let m : Magnitude := ⟨Nat.toDigits 10 n.natAbs, [], fun c => isDigit_of_mem_toDigits, by simp,
    Or.inl Nat.toDigits_ne_nil⟩
  have hchars : integerChars n ++ text =
      signChars (signOf n) ++ (m.chars ++ (powerChars none ++ text)) := by
    have hsign : signChars (signOf n) = if n < 0 then ['-'] else [] := by
      unfold signOf
      split <;> rfl
    rw [integerChars, hsign, Magnitude.chars, Magnitude.fractionChars_of_eq_nil rfl,
      List.append_nil, powerChars, List.nil_append, List.append_assoc]
  rw [hchars, readNumber?_chars (signOf n) none (isWhole_toDigits _) h, fraction?, if_pos rfl,
    ofParts?, if_pos ⟨rfl, rfl⟩, Nat.ofDigitChars_ten_toDigits, signOf_apply_natAbs]
  rfl

/-! ## Finite numbers -/

/-- The text of a decimal: a magnitude and possibly a power of ten, one of which shows that the
    number is no integer, and which together say the decimal. -/
structure IsLayout (d : Decimal) (text : List Char) (m : Magnitude) (power : Option Int) :
    Prop where
  chars_eq : text = m.chars ++ powerChars power
  isWhole : isWhole m.whole = true
  isReal : m.fraction ≠ [] ∨ power ≠ none
  toBinary64_eq : ∀ sign, (m.decimal.scale (power.getD 0)).toBinary64 sign = d.toBinary64 sign

theorem isWhole_of_head?_eq {d : Decimal} {whole : List Char} (h : d.significand ≠ 0)
    (hne : whole ≠ []) (hhead : whole = ['0'] ∨ whole.head? = d.digits.head?) :
    isWhole whole = true := by
  apply isWhole_of_head?_ne hne
  rcases hhead with hzero | heq
  · exact Or.inl hzero
  · rw [heq]
    exact Or.inr (head?_toDigits_ne (Nat.pos_of_ne_zero h))

theorem scale_zero (d : Decimal) : d.scale 0 = d := by
  simp [Decimal.scale]

theorem exists_layout_scientific {d : Decimal} (h : d.significand ≠ 0) :
    ∃ m power, IsLayout d d.scientific m power := by
  have hpos : 0 < d.digits.length := Nat.length_toDigits_pos
  have hdigits : ∀ c ∈ d.digits, c.isDigit = true := fun c hc => isDigit_of_mem_toDigits hc
  obtain ⟨m, hchars, hwhole, hhead, -, hdecimal⟩ :=
    Decimal.exists_insertPoint hdigits (d.digits.length - 1)
  refine ⟨m, some (d.magnitude - 1), ?_, ?_, Or.inr (Option.some_ne_none _), ?_⟩
  · rw [hchars]
    rfl
  · exact isWhole_of_head?_eq h hwhole hhead
  · intro sign
    have hscale : m.decimal.scale (d.magnitude - 1) = d := by
      rw [hdecimal, Decimal.digits, Nat.ofDigitChars_ten_toDigits, Decimal.scale]
      simp only [Decimal.magnitude]
      congr 1
      simp only [Decimal.digits] at *
      omega
    rw [Option.getD_some, hscale]

theorem exists_layout_positional {d : Decimal} (h : d.significand ≠ 0) (hneg : d.exponent < 0) :
    ∃ m power, IsLayout d d.positional m power := by
  obtain ⟨m, hchars, hwhole, hhead, hfraction, hdecimal⟩ := Decimal.exists_positional d
  refine ⟨m, none, ?_, ?_, Or.inl ?_, ?_⟩
  · rw [hchars, powerChars, List.append_nil]
  · exact isWhole_of_head?_eq h hwhole hhead
  · rw [← List.length_pos_iff, hfraction]
    omega
  · intro sign
    rw [Option.getD_none, scale_zero, hdecimal, Decimal.toBinary64_expand]

theorem isDigit_of_mem_zero : ∀ c ∈ ['0'], c.isDigit = true := by
  intro c hc
  rw [List.mem_singleton.1 hc]
  rfl

theorem exists_layout_whole {d : Decimal} (h : d.significand ≠ 0) (hexponent : 0 ≤ d.exponent) :
    ∃ m power, IsLayout d (d.positional ++ ['.', '0']) m power := by
  obtain ⟨m, hchars, hwhole, hhead, hfraction, hdecimal⟩ := Decimal.exists_positional d
  have hnil : m.fraction = [] := by
    rw [← List.length_eq_zero_iff, hfraction]
    omega
  let m' : Magnitude := ⟨m.whole, ['0'], m.whole_isDigit, isDigit_of_mem_zero, Or.inl hwhole⟩
  refine ⟨m', none, ?_, ?_, Or.inl (List.cons_ne_nil _ _), ?_⟩
  · rw [← hchars, Magnitude.chars, Magnitude.fractionChars_of_eq_nil hnil, powerChars,
      Magnitude.chars, Magnitude.fractionChars_of_ne_nil (List.cons_ne_nil _ _), List.append_nil,
      List.append_nil]
  · exact isWhole_of_head?_eq h hwhole hhead
  · intro sign
    -- The zero after the point counts tenths.
    have hdigits : Nat.ofDigitChars 10 (m.whole ++ ['0']) 0 =
        10 ^ 1 * Nat.ofDigitChars 10 m.whole 0 := by
      rw [Nat.ofDigitChars_append]
      exact Nat.ofDigitChars_replicate_zero (n := 1)
    have hvalue : m'.decimal =
        ⟨10 ^ 1 * m.decimal.significand, m.decimal.exponent - (1 : Nat)⟩ := by
      simp only [Magnitude.decimal, Decimal.ofDigits, m', hdigits, hnil, List.append_nil]
      rfl
    rw [Option.getD_none, scale_zero, hvalue, Decimal.toBinary64_mul_pow]
    exact (congrArg _ hdecimal).trans (Decimal.toBinary64_expand sign d)

/-- The text of a magnitude is a layout of its shortest decimal. -/
theorem exists_layout (rank : Fin finiteMagnitudes) :
    ∃ m power, IsLayout (.shortest .even rank.val) (magnitudeChars rank.val) m power := by
  rcases Nat.eq_zero_or_pos rank.val with hzero | hpos
  · rw [hzero]
    refine ⟨⟨['0'], ['0'], isDigit_of_mem_zero, isDigit_of_mem_zero, by decide⟩, none, by decide,
      by decide, by decide, ?_⟩
    intro sign
    cases sign <;> decide
  · have hne : (Decimal.shortest .even rank.val).significand ≠ 0 := by
      intro hzero
      have hread := Decimal.toBinary64_shortest .even .plus rank
      rw [Decimal.toBinary64, if_pos (Or.inl hzero), ← ofRank_of_lt .plus rank.isLt] at hread
      exact Nat.ne_of_lt hpos (Decimal.eq_of_ofRank_eq rank.isLt hread)
    unfold magnitudeChars
    dsimp only
    split
    · exact exists_layout_scientific hne
    · split
      · next hneg => exact exists_layout_positional hne hneg
      · next hneg => exact exists_layout_whole hne (Int.not_lt.1 hneg)

theorem readNumber?_realChars {x : Binary64} (hx : x.isFinite = true) {text : List Char}
    (h : Ends continuesNumber text) :
    readNumber? (realChars x ++ text) = some (.real x, text) := by
  cases x with
  | infinite sign => cases hx
  | nan => cases hx
  | finite sign rank =>
    obtain ⟨m, power, hlayout⟩ := exists_layout rank
    have hvalue : (m.decimal.scale (power.getD 0)).toBinary64 sign = .finite sign rank := by
      rw [hlayout.toBinary64_eq, Decimal.toBinary64_shortest]
    have hfraction : (fraction? m).getD [] = m.fraction := by
      by_cases hf : m.fraction = []
      · rw [fraction?, if_pos hf, hf, Option.getD_none]
      · rw [fraction?, if_neg hf, Option.getD_some]
    have hreal : ¬ ((fraction? m).isNone ∧ power.isNone) := by
      rintro ⟨hf, hp⟩
      rcases hlayout.isReal with hne | hne
      · rw [fraction?, if_neg hne] at hf
        cases hf
      · exact hne (Option.isNone_iff_eq_none.1 hp)
    rw [realChars, hlayout.chars_eq, List.append_assoc, List.append_assoc,
      readNumber?_chars sign power hlayout.isWhole h, ofParts?, if_neg hreal, hfraction]
    rw [Magnitude.decimal] at hvalue
    simp only [hvalue, isFinite, if_true, Option.map_some]

end LinProg.Json
