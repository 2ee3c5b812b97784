import LinProg.Proofs.Text.Run

set_option autoImplicit false

/-! # Signs and the texts of magnitudes

`Magnitude` is the set of texts that `readMagnitude?` is to read: digits, digits with a fraction,
or a fraction. The reader finds such a text at the start of any other unless the text that follows
continues it (`readMagnitude?_chars`), never stops before the end of one
(`length_le_of_readMagnitude?_chars`), and takes nothing else for one
(`exists_of_readMagnitude?`). -/

namespace LinProg.Numeral

open Text

/-! ## Signs -/

theorem splitSign_signChar (sign : Sign) (text : List Char) :
    splitSign (sign.char :: text) = (sign, text) := by
  simp [splitSign, readSign?]

theorem readSign?_eq_none_iff {text : List Char} : readSign? text = none ↔ Ends isSign text := by
  cases text with
  | nil => simp [readSign?]
  | cons c text => simp [readSign?, isSign]

theorem splitSign_of_ends {text : List Char} (h : Ends isSign text) :
    splitSign text = (.plus, text) := by
  rw [splitSign, readSign?_eq_none_iff.2 h, Option.getD_none]

theorem readSign?_eq_some {text body : List Char} {sign : Sign}
    (h : readSign? text = some (sign, body)) : text = sign.char :: body := by
  cases text with
  | nil => simp [readSign?] at h
  | cons c text =>
    simp only [readSign?, Option.map_eq_some_iff, Prod.mk.injEq] at h
    obtain ⟨s, hs, rfl, rfl⟩ := h
    rw [Sign.ofChar?_eq_some.1 hs]

/-- A sign that may be missing is found where no other one follows. -/
theorem splitSign_optional (sign : Option Sign) {text : List Char} (h : Ends isSign text) :
    splitSign ((sign.map Sign.char).toList ++ text) = (sign.getD .plus, text) := by
  cases sign with
  | none => exact splitSign_of_ends h
  | some sign => exact splitSign_signChar sign text

theorem exists_of_splitSign (text : List Char) :
    ∃ sign : Option Sign, (sign.map Sign.char).toList ++ (splitSign text).2 = text ∧
      sign.getD .plus = (splitSign text).1 := by
  unfold splitSign
  cases hr : readSign? text with
  | none => exact ⟨none, rfl, rfl⟩
  | some r => exact ⟨some r.1, (readSign?_eq_some hr).symm, rfl⟩

/-! ## Magnitudes -/

/-- The text of a magnitude: the digits before the point and those after it. One of the two may be
    missing, and no point is written without digits after it. -/
structure Magnitude where
  whole : List Char
  fraction : List Char
  whole_isDigit : ∀ c ∈ whole, c.isDigit = true
  fraction_isDigit : ∀ c ∈ fraction, c.isDigit = true
  nonempty : whole ≠ [] ∨ fraction ≠ []

namespace Magnitude

def fractionChars (m : Magnitude) : List Char :=
  if m.fraction = [] then [] else '.' :: m.fraction

def chars (m : Magnitude) : List Char :=
  m.whole ++ m.fractionChars

/-- What the magnitude stands for. -/
def decimal (m : Magnitude) : Decimal :=
  .ofDigits m.whole m.fraction

@[ext] theorem ext {m m' : Magnitude} (hw : m.whole = m'.whole) (hf : m.fraction = m'.fraction) :
    m = m' := by
  cases m
  cases m'
  cases hw
  cases hf
  rfl

theorem fractionChars_of_eq_nil {m : Magnitude} (h : m.fraction = []) : m.fractionChars = [] :=
  if_pos h

theorem fractionChars_of_ne_nil {m : Magnitude} (h : m.fraction ≠ []) :
    m.fractionChars = '.' :: m.fraction :=
  if_neg h

theorem whole_ne_nil {m : Magnitude} (h : m.fraction = []) : m.whole ≠ [] :=
  m.nonempty.resolve_right (not_not_intro h)

/-- A magnitude starts with a digit or with a point. -/
theorem ends_chars {p : Char → Bool} (m : Magnitude) (text : List Char)
    (hp : ∀ c, c.isDigit = true ∨ c = '.' → p c = false) : Ends p (m.chars ++ text) := by
  rw [chars]
  rcases hw : m.whole with _ | ⟨c, cs⟩
  · have hf : m.fraction ≠ [] := fun hf => whole_ne_nil hf hw
    rw [fractionChars_of_ne_nil hf]
    exact ends_cons.2 (hp '.' (Or.inr rfl))
  · exact ends_cons.2 (hp c (Or.inl (m.whole_isDigit c (by simp [hw]))))

end Magnitude

theorem not_isSign_of_startsMagnitude {c : Char} (h : c.isDigit = true ∨ c = '.') :
    isSign c = false := by
  rcases h with hdigit | rfl
  · exact not_isSign_of_isAlphanum (isAlphanum_of_isDigit hdigit)
  · decide

theorem not_isAlpha_of_startsMagnitude {c : Char} (h : c.isDigit = true ∨ c = '.') :
    c.isAlpha = false := by
  rcases h with hdigit | rfl
  · rw [Bool.eq_false_iff]
    intro halpha
    rw [not_isDigit_of_isAlpha halpha] at hdigit
    cases hdigit
  · decide

/-! ## Reading -/

theorem digits_run {run text : List Char} (hrun : ∀ c ∈ run, c.isDigit = true)
    (h : Ends Char.isDigit text) : digits (run ++ text) = run :=
  takeWhile_run hrun h

theorem afterDigits_run {run text : List Char} (hrun : ∀ c ∈ run, c.isDigit = true)
    (h : Ends Char.isDigit text) : afterDigits (run ++ text) = text :=
  dropWhile_run hrun h

theorem isDigit_of_mem_digits {c : Char} {text : List Char} (h : c ∈ digits text) :
    c.isDigit = true :=
  List.mem_takeWhile_imp h

theorem readFraction?_eq_none {text : List Char} (h : Ends (· == '.') text) :
    readFraction? text = none := by
  unfold readFraction?
  split
  · simp at h
  · rfl

theorem readFraction?_point {fraction text : List Char} (hne : fraction ≠ [])
    (hdigit : ∀ c ∈ fraction, c.isDigit = true) (h : Ends Char.isDigit text) :
    readFraction? ('.' :: (fraction ++ text)) = some (fraction, text) := by
  simp [readFraction?, digits_run hdigit h, afterDigits_run hdigit h, hne]

/-- A magnitude is read to its end, and what follows it is left. -/
theorem readMagnitude?_chars (m : Magnitude) {text : List Char} (hdigit : Ends Char.isDigit text)
    (hpoint : m.fraction = [] → Ends (· == '.') text) :
    readMagnitude? (m.chars ++ text) = some (m.decimal, text) := by
  by_cases hf : m.fraction = []
  · rw [Magnitude.chars, Magnitude.fractionChars_of_eq_nil hf, List.append_nil, readMagnitude?,
      digits_run m.whole_isDigit hdigit, afterDigits_run m.whole_isDigit hdigit,
      readFraction?_eq_none (hpoint hf)]
    simp [Magnitude.whole_ne_nil hf, Magnitude.decimal, hf]
  · have hstop : Ends Char.isDigit ('.' :: (m.fraction ++ text)) := by simp
    rw [Magnitude.chars, Magnitude.fractionChars_of_ne_nil hf, List.append_assoc, List.cons_append,
      readMagnitude?, digits_run m.whole_isDigit hstop, afterDigits_run m.whole_isDigit hstop,
      readFraction?_point hf m.fraction_isDigit hdigit]
    rfl

theorem length_afterDigits_run_le {run : List Char} (text : List Char)
    (hrun : ∀ c ∈ run, c.isDigit = true) : (afterDigits (run ++ text)).length ≤ text.length := by
  rw [afterDigits, List.dropWhile_append_of_pos hrun]
  exact (List.dropWhile_sublist _).length_le

/-- Whatever follows a magnitude, the reader takes at least the magnitude. -/
theorem length_le_of_readMagnitude?_chars (m : Magnitude) (text : List Char) :
    ∃ d rest, readMagnitude? (m.chars ++ text) = some (d, rest) ∧ rest.length ≤ text.length := by
  by_cases hf : m.fraction = []
  · have hle := length_afterDigits_run_le text m.whole_isDigit
    rw [Magnitude.chars, Magnitude.fractionChars_of_eq_nil hf, List.append_nil, readMagnitude?]
    cases hread : readFraction? (afterDigits (m.whole ++ text)) with
    | some r =>
      have := length_readFraction? hread
      exact ⟨_, r.2, rfl, by omega⟩
    | none =>
      have hne : digits (m.whole ++ text) ≠ [] := by
        rw [digits, List.takeWhile_append_of_pos m.whole_isDigit]
        simp [Magnitude.whole_ne_nil hf]
      exact ⟨_, _, if_neg (by simpa using hne), hle⟩
  · have hstop : Ends Char.isDigit ('.' :: (m.fraction ++ text)) := by simp
    have hne : digits (m.fraction ++ text) ≠ [] := by
      rw [digits, List.takeWhile_append_of_pos m.fraction_isDigit]
      simp [hf]
    rw [Magnitude.chars, Magnitude.fractionChars_of_ne_nil hf, List.append_assoc, List.cons_append,
      readMagnitude?, digits_run m.whole_isDigit hstop, afterDigits_run m.whole_isDigit hstop]
    simp only [readFraction?, List.isEmpty_iff, if_neg hne]
    exact ⟨_, _, rfl, length_afterDigits_run_le text m.fraction_isDigit⟩

theorem Magnitude.ends_isDigit_fractionChars (m : Magnitude) {text : List Char}
    (h : Ends Char.isDigit text) : Ends Char.isDigit (m.fractionChars ++ text) := by
  by_cases hf : m.fraction = []
  · rwa [fractionChars_of_eq_nil hf]
  · rw [fractionChars_of_ne_nil hf]
    simp

/-- Where neither a digit nor a point comes first there is no magnitude. -/
theorem readMagnitude?_eq_none {text : List Char} (hdigit : Ends Char.isDigit text)
    (hpoint : Ends (· == '.') text) : readMagnitude? text = none := by
  have hd : digits ([] ++ text) = [] := digits_run (by simp) hdigit
  have ha : afterDigits ([] ++ text) = text := afterDigits_run (by simp) hdigit
  rw [List.nil_append] at hd ha
  simp [readMagnitude?, hd, ha, readFraction?_eq_none hpoint]

theorem exists_of_readFraction? {text fraction rest : List Char}
    (h : readFraction? text = some (fraction, rest)) :
    fraction ≠ [] ∧ (∀ c ∈ fraction, c.isDigit = true) ∧ text = '.' :: (fraction ++ rest) := by
  unfold readFraction? at h
  split at h
  · next body =>
    split at h
    · cases h
    · next hne =>
      cases h
      refine ⟨by simpa using hne, fun c hc => isDigit_of_mem_digits hc, ?_⟩
      rw [digits_append_afterDigits]
  · cases h

/-- Only a magnitude is read as one. -/
theorem exists_of_readMagnitude? {text rest : List Char} {d : Decimal}
    (h : readMagnitude? text = some (d, rest)) :
    ∃ m : Magnitude, m.chars ++ rest = text ∧ m.decimal = d := by
  have htext := digits_append_afterDigits text
  have hwhole : ∀ c ∈ digits text, c.isDigit = true := fun c hc => isDigit_of_mem_digits hc
  unfold readMagnitude? at h
  split at h
  · next fraction rest' hread =>
    cases h
    obtain ⟨hne, hfraction, hafter⟩ := exists_of_readFraction? hread
    refine ⟨⟨digits text, fraction, hwhole, hfraction, Or.inr hne⟩, ?_, rfl⟩
    rw [Magnitude.chars, Magnitude.fractionChars_of_ne_nil hne, List.append_assoc,
      List.cons_append, ← hafter, htext]
  · split at h
    · cases h
    · next hne =>
      cases h
      refine ⟨⟨digits text, [], hwhole, by simp, Or.inl (by simpa using hne)⟩, ?_, rfl⟩
      rw [Magnitude.chars, Magnitude.fractionChars_of_eq_nil rfl, List.append_nil, htext]

/-! ## Uniqueness -/

/-- A text starts with at most one magnitude that what follows does not continue. -/
theorem Magnitude.chars_append_inj {m m' : Magnitude} {text text' : List Char}
    (hdigit : Ends Char.isDigit text) (hdigit' : Ends Char.isDigit text')
    (hpoint : Ends (· == '.') text) (hpoint' : Ends (· == '.') text')
    (h : m.chars ++ text = m'.chars ++ text') : m = m' ∧ text = text' := by
  simp only [chars, List.append_assoc] at h
  obtain ⟨hwhole, hrest⟩ := append_run_inj m.whole_isDigit m'.whole_isDigit
    (m.ends_isDigit_fractionChars hdigit) (m'.ends_isDigit_fractionChars hdigit') h
  by_cases hf : m.fraction = [] <;> by_cases hf' : m'.fraction = []
  · rw [fractionChars_of_eq_nil hf, fractionChars_of_eq_nil hf'] at hrest
    exact ⟨Magnitude.ext hwhole (hf.trans hf'.symm), hrest⟩
  · rw [fractionChars_of_eq_nil hf, fractionChars_of_ne_nil hf'] at hrest
    rw [List.nil_append] at hrest
    simp [hrest] at hpoint
  · rw [fractionChars_of_ne_nil hf, fractionChars_of_eq_nil hf'] at hrest
    rw [List.nil_append] at hrest
    simp [← hrest] at hpoint'
  · rw [fractionChars_of_ne_nil hf, fractionChars_of_ne_nil hf', List.cons_append,
      List.cons_append, List.cons.injEq] at hrest
    obtain ⟨hfraction, htext⟩ := append_run_inj m.fraction_isDigit m'.fraction_isDigit hdigit
      hdigit' hrest.2
    exact ⟨Magnitude.ext hwhole hfraction, htext⟩

end LinProg.Numeral
