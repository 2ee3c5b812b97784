import Mathlib.Data.List.TakeWhile
import LinProg.Text.Position
import LinProg.Text.WhiteSpace
import LinProg.Decimal.Numeral

set_option autoImplicit false

/-! # Runs of characters

A reader that takes as many characters of a class as there are stops at the first character outside
of it. `Ends p text` says that a run of `p` that comes before `text` is as long as it can be, and
`takeWhile_run`, `dropWhile_run` and `append_run_inj` are what follows: the reader finds the run,
and no other way of cutting the text has a run before such a rest.

The classes that readers use are disjoint where it matters: a sign is no digit, no letter and not
white space, and white space is neither digit nor letter. -/

namespace LinProg.Text

/-! ## Runs -/

/-- No character of a class comes first. -/
def Ends (p : Char → Bool) (text : List Char) : Prop :=
  ∀ c ∈ text.head?, p c = false

section Run

variable {p : Char → Bool}

@[simp] theorem ends_nil : Ends p [] := by
  intro c hc
  simp at hc

@[simp] theorem ends_cons {c : Char} {text : List Char} : Ends p (c :: text) ↔ p c = false := by
  simp [Ends]

theorem Ends.mono {q : Char → Bool} {text : List Char} (h : Ends p text)
    (hqp : ∀ c, q c = true → p c = true) : Ends q text := by
  intro c hc
  have hp := h c hc
  cases hq : q c with
  | false => rfl
  | true => rw [hqp c hq] at hp; exact hp

theorem Ends.append {text text' : List Char} (h : Ends p text) (h' : Ends p text') :
    Ends p (text ++ text') := by
  cases text with
  | nil => exact h'
  | cons c text => exact ends_cons.2 (ends_cons.1 h)

/-- The rest of a run does not continue it. -/
theorem ends_dropWhile (text : List Char) : Ends p (text.dropWhile p) := by
  intro c hc
  have := List.head?_dropWhile_not p text
  rw [hc] at this
  simpa using this

theorem takeWhile_run {run text : List Char} (hrun : ∀ c ∈ run, p c = true) (h : Ends p text) :
    (run ++ text).takeWhile p = run := by
  rw [List.takeWhile_append_of_pos hrun]
  cases text with
  | nil => simp
  | cons c text => simp [ends_cons.1 h]

theorem dropWhile_run {run text : List Char} (hrun : ∀ c ∈ run, p c = true) (h : Ends p text) :
    (run ++ text).dropWhile p = text := by
  rw [List.dropWhile_append_of_pos hrun]
  cases text with
  | nil => rfl
  | cons c text => simp [ends_cons.1 h]

/-- Where a run ends is determined by the whole text. -/
theorem append_run_inj {run run' text text' : List Char} (hrun : ∀ c ∈ run, p c = true)
    (hrun' : ∀ c ∈ run', p c = true) (h : Ends p text) (h' : Ends p text')
    (heq : run ++ text = run' ++ text') : run = run' ∧ text = text' := by
  have ht := congrArg (List.takeWhile p) heq
  have hd := congrArg (List.dropWhile p) heq
  rw [takeWhile_run hrun h, takeWhile_run hrun' h'] at ht
  rw [dropWhile_run hrun h, dropWhile_run hrun' h'] at hd
  exact ⟨ht, hd⟩

end Run

/-! ## Classes -/

theorem isDigit_iff_toNat {c : Char} : c.isDigit = true ↔ 48 ≤ c.toNat ∧ c.toNat ≤ 57 :=
  Char.isDigit_iff_toNat

theorem isAlpha_iff_toNat {c : Char} :
    c.isAlpha = true ↔ (65 ≤ c.toNat ∧ c.toNat ≤ 90) ∨ (97 ≤ c.toNat ∧ c.toNat ≤ 122) := by
  show (decide ('A'.val ≤ c.val ∧ c.val ≤ 'Z'.val) ||
    (decide ('a'.val ≤ c.val) && decide (c.val ≤ 'z'.val))) = true ↔ _
  simp [UInt32.le_iff_toNat_le]

/-- Only a letter has a letter for its lower case. -/
theorem isAlpha_of_toLower {c : Char} (h : c.toLower.isAlpha = true) : c.isAlpha = true := by
  by_cases hupper : c.val ≥ 'A'.val ∧ c.val ≤ 'Z'.val
  · rw [isAlpha_iff_toNat]
    left
    exact ⟨UInt32.le_iff_toNat_le.1 hupper.1, UInt32.le_iff_toNat_le.1 hupper.2⟩
  · have hlower : c.toLower = c := dif_neg hupper
    rwa [hlower] at h

theorem isAlphanum_iff {c : Char} :
    c.isAlphanum = true ↔ c.isAlpha = true ∨ c.isDigit = true := by
  simp [Char.isAlphanum]

theorem isAlphanum_of_isAlpha {c : Char} (h : c.isAlpha = true) : c.isAlphanum = true :=
  isAlphanum_iff.2 (Or.inl h)

theorem isAlphanum_of_isDigit {c : Char} (h : c.isDigit = true) : c.isAlphanum = true :=
  isAlphanum_iff.2 (Or.inr h)

theorem isWhiteSpace_iff_toNat {c : Char} :
    isWhiteSpace c = true ↔ ∃ range ∈ whiteSpaceRanges, range.1 ≤ c.toNat ∧ c.toNat ≤ range.2 := by
  simp [isWhiteSpace]

theorem not_isDigit_of_isAlpha {c : Char} (h : c.isAlpha = true) : c.isDigit = false := by
  rw [Bool.eq_false_iff, ne_eq, isDigit_iff_toNat]
  rw [isAlpha_iff_toNat] at h
  omega

theorem not_isWhiteSpace_of_isAlphanum {c : Char} (h : c.isAlphanum = true) :
    isWhiteSpace c = false := by
  rw [Bool.eq_false_iff, ne_eq, isWhiteSpace_iff_toNat]
  rw [isAlphanum_iff, isAlpha_iff_toNat, isDigit_iff_toNat] at h
  simp [whiteSpaceRanges]
  omega

theorem not_isAlphanum_of_isWhiteSpace {c : Char} (h : isWhiteSpace c = true) :
    c.isAlphanum = false := by
  cases halphanum : c.isAlphanum with
  | false => rfl
  | true =>
    rw [not_isWhiteSpace_of_isAlphanum halphanum] at h
    cases h

def isSign (c : Char) : Bool :=
  (Sign.ofChar? c).isSome

@[simp] theorem isSign_signChar (s : Sign) : isSign s.char = true := by
  simp [isSign]

/-- A sign is no letter, no digit and not white space. -/
theorem isAlphanum_signChar (s : Sign) : s.char.isAlphanum = false := by
  cases s <;> decide

theorem isWhiteSpace_signChar (s : Sign) : isWhiteSpace s.char = false := by
  cases s <;> decide

theorem not_isSign_of_isAlphanum {c : Char} (h : c.isAlphanum = true) : isSign c = false := by
  cases hs : Sign.ofChar? c with
  | none => simp [isSign, hs]
  | some s =>
    rw [Sign.ofChar?_eq_some.1 hs, isAlphanum_signChar] at h
    cases h

end LinProg.Text
