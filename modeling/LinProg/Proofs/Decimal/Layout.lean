import LinProg.Decimal.Layout
import LinProg.Proofs.Decimal.Magnitude
import LinProg.Proofs.Decimal.ReadBack

set_option autoImplicit false

/-! # Reading the text of a number back

The positional text of a decimal is a magnitude with digits before the point. What it says is the
decimal with its positive power of ten multiplied out (`expand`), and that is read as the decimal
is. Together with the read-back of shortest decimals this makes the text of every number read as
the number (`number?_chars`), signed zeros, infinities and not-a-number included. -/

namespace LinProg

open Text Numeral

namespace Decimal

open Binary64

/-! ## Multiplying out -/

/-- The decimal with a positive power of ten multiplied into its significand. -/
def expand (d : Decimal) : Decimal :=
  ⟨10 ^ d.exponent.toNat * d.significand, -(-d.exponent).toNat⟩

/-- A zero at the end is one more digit. -/
theorem length_toDigits_mul_pow {n : Nat} (h : 0 < n) (zeros : Nat) :
    (Nat.toDigits 10 (10 ^ zeros * n)).length = (Nat.toDigits 10 n).length + zeros := by
  induction zeros with
  | zero => simp
  | succ zeros ih =>
    have hpos : 0 < 10 ^ zeros * n := Nat.mul_pos (Nat.pow_pos (by decide)) h
    have happend := Nat.toDigits_append_toDigits (d := 0) (by decide : 1 < 10) hpos (by decide)
    have hnext : 10 ^ (zeros + 1) * n = 10 * (10 ^ zeros * n) + 0 := by
      rw [Nat.pow_succ, Nat.add_zero, ← Nat.mul_assoc, Nat.mul_comm 10]
    rw [hnext, ← happend, List.length_append, ih, Nat.toDigits_zero]
    rfl

/-- A number does not depend on the unit that it is counted in. -/
theorem toBinary64_mul_pow (sign : Sign) (significand : Nat) (exponent : Int) (places : Nat) :
    toBinary64 sign ⟨10 ^ places * significand, exponent - places⟩ =
      toBinary64 sign ⟨significand, exponent⟩ := by
  have hten : 0 < 10 ^ places := Nat.pow_pos (by decide)
  rcases Nat.eq_zero_or_pos significand with rfl | hpos
  · rw [toBinary64, toBinary64, if_pos (Or.inl (Nat.mul_zero _)), if_pos (Or.inl rfl)]
  · have hne : significand ≠ 0 := Nat.ne_of_gt hpos
    have hne' : 10 ^ places * significand ≠ 0 := Nat.mul_ne_zero (Nat.ne_of_gt hten) hne
    -- The zeros count as digits and no longer as exponent: the first digit stays in its place.
    have hmagnitude : magnitude ⟨10 ^ places * significand, exponent - places⟩ =
        magnitude ⟨significand, exponent⟩ := by
      simp only [magnitude, digits, length_toDigits_mul_pow hpos]
      omega
    have hpowers : places + (exponent - places).toNat + (-exponent).toNat =
        exponent.toNat + (-(exponent - places)).toNat := by
      omega
    have hquotient : roundRank
        ((10 ^ places * significand * Nat.pow 10 (exponent - places).toNat) <<< 1074)
          (Nat.pow 10 (-(exponent - places)).toNat) =
        roundRank ((significand * Nat.pow 10 exponent.toNat) <<< 1074)
          (Nat.pow 10 (-exponent).toNat) := by
      refine roundRank_congr (Nat.pow_pos (by decide)) (Nat.pow_pos (by decide)) ?_
      generalize 1074 = shift
      simp only [Nat.shiftLeft_eq, Nat.pow_eq]
      calc 10 ^ places * significand * 10 ^ (exponent - places).toNat * 2 ^ shift *
              10 ^ (-exponent).toNat
          = significand * 2 ^ shift *
              10 ^ (places + (exponent - places).toNat + (-exponent).toNat) := by ring
        _ = significand * 2 ^ shift * 10 ^ (exponent.toNat + (-(exponent - places)).toNat) := by
          rw [hpowers]
        _ = significand * 10 ^ exponent.toNat * 2 ^ shift * 10 ^ (-(exponent - places)).toNat := by
          ring
    simp only [toBinary64, hmagnitude, hne, hne', false_or, ofQuotient, hquotient]

/-- What is multiplied out is read as the decimal is. -/
theorem toBinary64_expand (sign : Sign) (d : Decimal) :
    d.expand.toBinary64 sign = d.toBinary64 sign := by
  have hexponent : -((-d.exponent).toNat : Int) = d.exponent - d.exponent.toNat := by omega
  rw [expand, hexponent, toBinary64_mul_pow]

/-! ## Positional text -/

/-- Zeros at the front count nothing. -/
theorem ofDigitChars_zeros (zeros : Nat) (digits : List Char) :
    Nat.ofDigitChars 10 (List.replicate zeros '0' ++ digits) 0 = Nat.ofDigitChars 10 digits 0 := by
  rw [Nat.ofDigitChars_append, Nat.ofDigitChars_replicate_zero, Nat.mul_zero]

/-- Before the point stands a zero, or the digits start there. -/
theorem head?_take_padded (digits : List Char) (places : Nat) :
    let padded := List.replicate (places + 1 - digits.length) '0' ++ digits
    padded.take (padded.length - places) = ['0'] ∨
      (padded.take (padded.length - places)).head? = digits.head? := by
  intro padded
  rcases Nat.lt_or_ge places digits.length with hmany | hfew
  · right
    have hpadded : padded = digits := by
      simp only [padded, Nat.sub_eq_zero_of_le hmany, List.replicate_zero, List.nil_append]
    rw [hpadded, List.head?_take, if_neg (by omega)]
  · left
    obtain ⟨zeros, hzeros⟩ : ∃ zeros, places + 1 - digits.length = zeros + 1 :=
      ⟨places - digits.length, by omega⟩
    have hpadded : padded = '0' :: (List.replicate zeros '0' ++ digits) := by
      simp only [padded, hzeros, List.replicate_succ, List.cons_append]
    have hlength : padded.length - places = 1 := by
      rw [hpadded, List.length_cons, List.length_append, List.length_replicate]
      omega
    rw [hlength, hpadded, List.take_succ_cons, List.take_zero]

/-- Digits with a point among them are a magnitude, without zeros in front of other digits unless
    the digits start with them. -/
theorem exists_insertPoint {digits : List Char} (hdigits : ∀ c ∈ digits, c.isDigit = true)
    (places : Nat) :
    ∃ m : Magnitude, m.chars = insertPoint digits places ∧ m.whole ≠ [] ∧
      (m.whole = ['0'] ∨ m.whole.head? = digits.head?) ∧ m.fraction.length = places ∧
      m.decimal = ⟨Nat.ofDigitChars 10 digits 0, -places⟩ := by
  have hhead := head?_take_padded digits places
  generalize hpadded : List.replicate (places + 1 - digits.length) '0' ++ digits = padded at hhead
  -- The padding leaves at least one digit before the point.
  have hlength : places + 1 ≤ padded.length := by
    rw [← hpadded, List.length_append, List.length_replicate]
    omega
  have hdigit : ∀ c ∈ padded, c.isDigit = true := by
    intro c hc
    rw [← hpadded] at hc
    rcases List.mem_append.1 hc with hzero | hc
    · rw [List.eq_of_mem_replicate hzero]
      decide
    · exact hdigits c hc
  have hvalue : Nat.ofDigitChars 10 padded 0 = Nat.ofDigitChars 10 digits 0 := by
    rw [← hpadded, ofDigitChars_zeros]
  have hwhole : padded.take (padded.length - places) ≠ [] := by
    rw [← List.length_pos_iff, List.length_take]
    omega
  have hfraction : (padded.drop (padded.length - places)).length = places := by
    rw [List.length_drop]
    omega
  refine ⟨⟨padded.take (padded.length - places), padded.drop (padded.length - places),
    fun c hc => hdigit c (List.mem_of_mem_take hc), fun c hc => hdigit c (List.mem_of_mem_drop hc),
    Or.inl hwhole⟩, ?_, hwhole, hhead, hfraction, ?_⟩
  · simp only [insertPoint, hpadded]
    by_cases hp : places = 0
    · rw [if_pos hp, Magnitude.chars, Magnitude.fractionChars_of_eq_nil]
      · simp [hp]
      · simp [hp]
    · rw [if_neg hp, Magnitude.chars, Magnitude.fractionChars_of_ne_nil]
      rw [← List.length_pos_iff, hfraction]
      omega
  · rw [Magnitude.decimal, ofDigits, List.take_append_drop, hvalue, hfraction]

/-- The positional text of a decimal is a magnitude, which says the decimal multiplied out. -/
theorem exists_positional (d : Decimal) :
    ∃ m : Magnitude, m.chars = d.positional ∧ m.whole ≠ [] ∧
      (m.whole = ['0'] ∨ m.whole.head? = d.digits.head?) ∧
      m.fraction.length = (-d.exponent).toNat ∧ m.decimal = d.expand := by
  have hdigits : ∀ c ∈ d.digits ++ List.replicate d.exponent.toNat '0', c.isDigit = true := by
    intro c hc
    rcases List.mem_append.1 hc with hc | hzero
    · exact Nat.isDigit_of_mem_toDigits (by decide) (by decide) hc
    · rw [List.eq_of_mem_replicate hzero]
      decide
  have hhead : (d.digits ++ List.replicate d.exponent.toNat '0').head? = d.digits.head? := by
    have hne : d.digits ≠ [] := Nat.toDigits_ne_nil
    obtain ⟨c, cs, hcs⟩ := List.exists_cons_of_ne_nil hne
    rw [hcs, List.cons_append, List.head?_cons, List.head?_cons]
  obtain ⟨m, hchars, hwhole, hfirst, hfraction, hdecimal⟩ :=
    exists_insertPoint hdigits (-d.exponent).toNat
  rw [hhead] at hfirst
  refine ⟨m, hchars, hwhole, hfirst, hfraction, ?_⟩
  rw [hdecimal, Nat.ofDigitChars_append, digits, Nat.ofDigitChars_ten_toDigits,
    Nat.ofDigitChars_replicate_zero, expand]

end Decimal

/-! ## Numbers -/

/-- The magnitude in the text of a finite number is read as the number, under the number's sign. -/
theorem Binary64.exists_magnitude (rank : Fin finiteMagnitudes) :
    ∃ m : Magnitude, m.chars = (Decimal.shortest .up rank.val).positional ∧ m.whole ≠ [] ∧
      ∀ sign, m.decimal.toBinary64 sign = .finite sign rank := by
  obtain ⟨m, hchars, hwhole, -, -, hdecimal⟩ :=
    Decimal.exists_positional (.shortest .up rank.val)
  refine ⟨m, hchars, hwhole, ?_⟩
  intro sign
  rw [hdecimal, Decimal.toBinary64_expand, Decimal.toBinary64_shortest]

namespace Numeral

variable {m : Magnitude}

/-- A digit comes first where the digits before the point are not missing. -/
theorem exists_cons_chars (h : m.whole ≠ []) :
    ∃ c text, m.chars = c :: text ∧ c.isDigit = true := by
  obtain ⟨c, cs, hcs⟩ := List.exists_cons_of_ne_nil h
  exact ⟨c, cs ++ m.fractionChars, by rw [Magnitude.chars, hcs, List.cons_append],
    m.whole_isDigit c (by simp [hcs])⟩

/-- Every name starts with a letter. -/
theorem named?_of_ends (sign : Sign) {text : List Char} (h : Ends Char.isAlpha text) :
    named? sign text = none := by
  cases text with
  | nil => rfl
  | cons c text =>
    have hletter : ∀ d : Char, d.isAlpha = true → c.toLower ≠ d := by
      rintro d hd rfl
      have hfirst := ends_cons.1 h
      rw [isAlpha_of_toLower hd] at hfirst
      cases hfirst
    simp [named?, hletter 'i' (by decide), hletter 'n' (by decide)]

/-- A magnitude is a decimal in full. -/
theorem decimal?_chars (m : Magnitude) : decimal? m.chars = some m.decimal := by
  have hne : m.whole ++ m.fraction ≠ [] := by
    simpa [-not_and, Classical.not_and_iff_not_or_not] using m.nonempty
  have hzero : m.decimal.scale 0 = m.decimal := by
    simp [Decimal.scale]
  by_cases hf : m.fraction = []
  · have hchars : m.chars = m.whole ++ [] := by
      rw [Magnitude.chars, Magnitude.fractionChars_of_eq_nil hf]
    rw [hf] at hne
    simp only [decimal?, hchars, digits_run m.whole_isDigit ends_nil,
      afterDigits_run m.whole_isDigit ends_nil, splitFraction]
    rw [if_neg (by simpa using hne), exponent?, Option.map_some, ← hf]
    exact congrArg some hzero
  · have hchars : m.chars = m.whole ++ ('.' :: (m.fraction ++ [])) := by
      rw [Magnitude.chars, Magnitude.fractionChars_of_ne_nil hf, List.append_nil]
    have hstop : Ends Char.isDigit ('.' :: (m.fraction ++ [])) := by simp
    simp only [decimal?, hchars, digits_run m.whole_isDigit hstop,
      afterDigits_run m.whole_isDigit hstop, splitFraction,
      digits_run m.fraction_isDigit ends_nil, afterDigits_run m.fraction_isDigit ends_nil]
    rw [if_neg (by simpa using hne), exponent?, Option.map_some]
    exact congrArg some hzero

/-- A magnitude is a number in full, also after a sign. -/
theorem number?_magnitude (sign : Option Sign) (m : Magnitude) :
    number? ((sign.map Sign.char).toList ++ m.chars) =
      some (m.decimal.toBinary64 (sign.getD .plus)) := by
  have hsign := m.ends_chars [] fun c => not_isSign_of_startsMagnitude
  have hname := m.ends_chars [] fun c => not_isAlpha_of_startsMagnitude
  rw [List.append_nil] at hsign hname
  rw [number?, splitSign_optional sign hsign]
  simp [named?_of_ends _ hname, decimal?_chars]

/-- **The text of a number is read as the number**, whichever number it is. -/
theorem number?_chars (x : Binary64) : number? x.chars = some x := by
  cases x with
  | nan => decide
  | infinite sign => cases sign <;> decide
  | finite sign rank =>
    obtain ⟨m, hchars, -, hread⟩ := Binary64.exists_magnitude rank
    rw [Binary64.chars, ← hchars, ← hread sign]
    cases sign with
    | plus => exact number?_magnitude none m
    | minus => exact number?_magnitude (some .minus) m

end Numeral

end LinProg
