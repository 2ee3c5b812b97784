import LinProg.Proofs.Expression.Grammar

set_option autoImplicit false

/-! # Reading one term

The reader of a term against the grammar. Three facts are shown of each part and then of the whole:
a part that is there is read, with its value, if what follows does not continue it; what is read is
such a part; and the reader never stops before the end of one. From the last fact it follows that a
reader that fails has read the longest coefficient. -/

namespace LinProg

open Text Numeral Grammar

/-! ## Asterisks -/

theorem skipAsterisk_of_ends {text : List Char} (h : Ends (· == '*') text) :
    skipAsterisk text = text := by
  unfold skipAsterisk
  split
  · simp at h
  · rfl

theorem exists_of_skipAsterisk (text : List Char) :
    ∃ asterisk : Bool, (if asterisk then ['*'] else []) ++ skipAsterisk text = text := by
  unfold skipAsterisk
  split
  · exact ⟨true, rfl⟩
  · exact ⟨false, rfl⟩

/-! ## Magnitudes before a name -/

theorem splitMagnitude_none {text : List Char} (hdigit : Ends Char.isDigit text)
    (hpoint : Ends (· == '.') text) : splitMagnitude text = (.one, text) := by
  rw [splitMagnitude, readMagnitude?_eq_none hdigit hpoint]

theorem splitMagnitude_some (m : Magnitude) {text : List Char} (hdigit : Ends Char.isDigit text)
    (hpoint : Ends (· == '.') text) :
    splitMagnitude (m.chars ++ text) = (m.decimal.toBinary64 .plus, text) := by
  rw [splitMagnitude, readMagnitude?_chars m hdigit fun _ => hpoint]

theorem exists_of_splitMagnitude (text : List Char) :
    ∃ magnitude : Option Magnitude,
      (magnitude.map Magnitude.chars).getD [] ++ (splitMagnitude text).2 = text ∧
        Coefficient.magnitudeValue magnitude = (splitMagnitude text).1 := by
  unfold splitMagnitude
  split
  · next d rest hread =>
    obtain ⟨m, htext, rfl⟩ := exists_of_readMagnitude? hread
    exact ⟨some m, htext, rfl⟩
  · exact ⟨none, rfl, rfl⟩

/-! ## Coefficients -/

/-- Whether a character can be part of a coefficient. -/
def continuesCoefficient (c : Char) : Bool :=
  c.isDigit || c == '.' || c == '*' || isSign c

section Ends

variable {text : List Char} (h : Ends continuesCoefficient text)

include h

theorem Text.Ends.isDigit : Ends Char.isDigit text :=
  h.mono fun c hc => by simp [continuesCoefficient, hc]

theorem Text.Ends.point : Ends (· == '.') text :=
  h.mono fun c hc => by simp [continuesCoefficient, hc]

theorem Text.Ends.asterisk : Ends (· == '*') text :=
  h.mono fun c hc => by simp [continuesCoefficient, hc]

theorem Text.Ends.isSign : Ends Text.isSign text :=
  h.mono fun c hc => by simp [continuesCoefficient, hc]

end Ends

/-- A name does not continue a coefficient. -/
theorem ends_nameChars (n : Name) (text : List Char) :
    Ends continuesCoefficient (n.chars ++ text) := by
  have halpha := n.first_isAlpha
  have hsign := not_isSign_of_isAlphanum (isAlphanum_of_isAlpha halpha)
  have hpoint : n.first ≠ '.' := by
    intro hp
    rw [hp] at halpha
    exact absurd halpha (by decide)
  have hasterisk : n.first ≠ '*' := by
    intro hp
    rw [hp] at halpha
    exact absurd halpha (by decide)
  simp [Name.chars, continuesCoefficient, not_isDigit_of_isAlpha halpha, hpoint, hasterisk, hsign]

namespace Grammar.Coefficient

variable (c : Coefficient) {text : List Char}

/-- What follows the sign of a coefficient starts with a digit, a point or an asterisk, unless
    nothing follows it. -/
theorem ends_body {p : Char → Bool} (hp : ∀ d, d.isDigit = true ∨ d = '.' ∨ d = '*' → p d = false)
    (h : c.magnitudeChars ++ c.asteriskChars ≠ [] ∨ Ends p text) :
    Ends p (c.magnitudeChars ++ (c.asteriskChars ++ text)) := by
  rcases hm : c.magnitude with _ | m
  · cases ha : c.asterisk with
    | false =>
      have hnil : c.magnitudeChars ++ c.asteriskChars = [] := by
        simp [magnitudeChars, asteriskChars, hm, ha]
      rw [← List.append_assoc, hnil]
      exact h.resolve_left (not_not_intro hnil)
    | true => simp [magnitudeChars, asteriskChars, hm, ha, hp]
  · rw [magnitudeChars, hm, Option.map_some, Option.getD_some]
    exact m.ends_chars (c.asteriskChars ++ text) fun d hd => hp d (hd.imp_right Or.inl)

/-- No sign follows the sign of a coefficient, unless the coefficient is only a sign. -/
theorem ends_isSign_body (h : c.magnitudeChars ++ c.asteriskChars ≠ [] ∨ Ends isSign text) :
    Ends isSign (c.magnitudeChars ++ (c.asteriskChars ++ text)) := by
  refine c.ends_body ?_ h
  rintro d (hdigit | rfl | rfl)
  · exact not_isSign_of_isAlphanum (isAlphanum_of_isDigit hdigit)
  · decide
  · decide

/-- What follows the magnitude of a coefficient does not continue it. -/
theorem ends_isDigit (h : Ends continuesCoefficient text) :
    Ends Char.isDigit (c.asteriskChars ++ text) := by
  cases ha : c.asterisk with
  | false => simpa [asteriskChars, ha] using h.isDigit
  | true => simp [asteriskChars, ha]

theorem ends_point (h : Ends continuesCoefficient text) :
    Ends (· == '.') (c.asteriskChars ++ text) := by
  cases ha : c.asterisk with
  | false => simpa [asteriskChars, ha] using h.point
  | true => simp [asteriskChars, ha]

theorem splitSign_chars (h : Ends continuesCoefficient text) :
    splitSign (c.chars ++ text) =
      (c.sign.getD .plus, c.magnitudeChars ++ (c.asteriskChars ++ text)) := by
  rcases hs : c.sign with _ | s
  · simpa [chars, signChars, hs] using splitSign_of_ends (c.ends_isSign_body (Or.inr h.isSign))
  · simpa [chars, signChars, hs] using splitSign_signChar s _

theorem splitMagnitude_chars (h : Ends continuesCoefficient text) :
    splitMagnitude (c.magnitudeChars ++ (c.asteriskChars ++ text)) =
      (magnitudeValue c.magnitude, c.asteriskChars ++ text) := by
  rcases hm : c.magnitude with _ | m
  · simpa [magnitudeChars, magnitudeValue, hm] using
      splitMagnitude_none (c.ends_isDigit h) (c.ends_point h)
  · simpa [magnitudeChars, magnitudeValue, hm] using
      splitMagnitude_some m (c.ends_isDigit h) (c.ends_point h)

theorem skipAsterisk_chars (h : Ends continuesCoefficient text) :
    skipAsterisk (c.asteriskChars ++ text) = text := by
  cases ha : c.asterisk with
  | false => simpa [asteriskChars, ha] using skipAsterisk_of_ends h.asterisk
  | true => simp [asteriskChars, ha, skipAsterisk]

/-- A coefficient is read to its end, with its value. -/
theorem readCoefficient_chars (h : Ends continuesCoefficient text) :
    readCoefficient (c.chars ++ text) = (c.value, text) := by
  simp only [readCoefficient, c.splitSign_chars h, c.splitMagnitude_chars h,
    c.skipAsterisk_chars h, value]

/-- Past the sign, the reader takes at least what is there of a coefficient. -/
theorem length_le_of_splitMagnitude_chars (text : List Char) :
    (skipAsterisk (splitMagnitude (c.magnitudeChars ++ (c.asteriskChars ++ text))).2).length ≤
      text.length := by
  cases ha : c.asterisk with
  | true =>
    have hdigit : Ends Char.isDigit ('*' :: text) := by simp
    have hpoint : Ends (· == '.') ('*' :: text) := by simp
    rcases hm : c.magnitude with _ | m
    · simp [magnitudeChars, asteriskChars, hm, ha, splitMagnitude_none hdigit hpoint, skipAsterisk]
    · simp [magnitudeChars, asteriskChars, hm, ha, splitMagnitude_some m hdigit hpoint,
        skipAsterisk]
  | false =>
    refine Nat.le_trans (length_skipAsterisk _) ?_
    rcases hm : c.magnitude with _ | m
    · simpa [magnitudeChars, asteriskChars, hm, ha] using length_splitMagnitude text
    · obtain ⟨d, rest, hread, hle⟩ := length_le_of_readMagnitude?_chars m text
      simpa [magnitudeChars, asteriskChars, hm, ha, splitMagnitude, hread] using hle

/-- Whatever follows a coefficient, the reader takes at least the coefficient. -/
theorem length_le_of_readCoefficient_chars (text : List Char) :
    (readCoefficient (c.chars ++ text)).2.length ≤ text.length := by
  have hbody := c.length_le_of_splitMagnitude_chars text
  rcases hs : c.sign with _ | s
  · by_cases hne : c.magnitudeChars ++ c.asteriskChars = []
    · -- Nothing of the coefficient is there, and what follows may start with a sign.
      have hchars : c.chars = [] := by simp [chars, signChars, hs, hne]
      rw [hchars]
      exact length_readCoefficient text
    · simpa [chars, signChars, hs, readCoefficient,
        splitSign_of_ends (c.ends_isSign_body (Or.inl hne))] using hbody
  · simpa [chars, signChars, hs, readCoefficient, splitSign_signChar] using hbody

end Grammar.Coefficient

/-- Only a coefficient is read as one. -/
theorem exists_of_readCoefficient (text : List Char) :
    ∃ c : Coefficient, c.chars ++ (readCoefficient text).2 = text ∧
      c.value = (readCoefficient text).1 := by
  obtain ⟨sign, htext, hsign⟩ := exists_of_splitSign text
  obtain ⟨magnitude, hbody, hmagnitude⟩ := exists_of_splitMagnitude (splitSign text).2
  obtain ⟨asterisk, hrest⟩ := exists_of_skipAsterisk (splitMagnitude (splitSign text).2).2
  refine ⟨⟨sign, magnitude, asterisk⟩, ?_, ?_⟩
  · simp only [Coefficient.chars, Coefficient.signChars, Coefficient.magnitudeChars,
      Coefficient.asteriskChars, readCoefficient, List.append_assoc, hrest, hbody, htext]
  · simp only [Coefficient.value, readCoefficient, hsign, hmagnitude]

/-! ## Names -/

theorem readName?_chars (n : Name) {text : List Char} (h : Ends Char.isAlphanum text) :
    readName? (n.chars ++ text) = some (String.ofList n.chars, text) := by
  simp only [Name.chars, List.cons_append, readName?, n.first_isAlpha, if_true,
    takeWhile_run n.more_isAlphanum h, dropWhile_run n.more_isAlphanum h]

/-- Whatever follows a name, a name is read. -/
theorem readName?_chars_ne_none (n : Name) (text : List Char) :
    readName? (n.chars ++ text) ≠ none := by
  simp [Name.chars, readName?, n.first_isAlpha]

/-- Only a name is read as one, up to its end. -/
theorem exists_of_readName? {text rest : List Char} {name : String}
    (h : readName? text = some (name, rest)) :
    ∃ n : Name, n.chars ++ rest = text ∧ String.ofList n.chars = name ∧
      Ends Char.isAlphanum rest := by
  unfold readName? at h
  split at h
  · next c text =>
    split at h
    · next halpha =>
      cases h
      refine ⟨⟨c, text.takeWhile Char.isAlphanum, halpha, fun d hd => List.mem_takeWhile_imp hd⟩,
        ?_, rfl, ends_dropWhile text⟩
      rw [Name.chars, List.cons_append, List.takeWhile_append_dropWhile]
    · cases h
  · cases h

/-! ## Terms -/

theorem readTerm_chars (t : Monomial) {text : List Char} (h : Ends Char.isAlphanum text) :
    readTerm (t.chars ++ text) = .ok (t.term, text) := by
  have hread := t.coefficient.readCoefficient_chars (ends_nameChars t.name text)
  simp only [readTerm, Monomial.chars, List.append_assoc, hread, readName?_chars t.name h,
    Monomial.term]

/-- Only a term is read as one, up to its end. -/
theorem exists_of_readTerm_ok {text rest : List Char} {t : Term}
    (h : readTerm text = .ok (t, rest)) :
    ∃ m : Monomial, m.chars ++ rest = text ∧ m.term = t ∧ Ends Char.isAlphanum rest := by
  obtain ⟨c, htext, hvalue⟩ := exists_of_readCoefficient text
  simp only [readTerm] at h
  split at h
  · next name after hname =>
    cases h
    obtain ⟨n, hchars, hn, hends⟩ := exists_of_readName? hname
    refine ⟨⟨c, n⟩, ?_, ?_, hends⟩
    · rw [Monomial.chars, List.append_assoc, hchars, htext]
    · rw [Monomial.term, hvalue, hn]
  · cases h

/-- Reading a term fails right after the coefficient of a term without a name. -/
theorem readTerm_eq_error_iff {text unread : List Char} :
    readTerm text = .error unread ↔
      ∃ c : Coefficient, c.chars ++ unread = text ∧ LacksName c unread := by
  have hfail : readTerm text = .error unread ↔
      readName? (readCoefficient text).2 = none ∧ (readCoefficient text).2 = unread := by
    simp only [readTerm]
    cases readName? (readCoefficient text).2 <;> simp
  obtain ⟨c, htext, hvalue⟩ := exists_of_readCoefficient text
  have hlength : ∀ c' : Coefficient, ∀ rest, c'.chars ++ rest = text →
      (readCoefficient text).2.length ≤ rest.length := by
    rintro c' rest rfl
    exact c'.length_le_of_readCoefficient_chars rest
  rw [hfail]
  constructor
  · rintro ⟨hname, rfl⟩
    -- A longer coefficient would leave less text than the reader did.
    refine ⟨c, htext, ⟨?_, ?_⟩⟩
    · rintro c' ⟨rest, hrest⟩
      have hle := hlength c' rest (hrest.trans htext)
      have := congrArg List.length hrest
      simp only [List.length_append] at this
      omega
    · rintro t ⟨rest, hrest⟩
      rw [htext, Monomial.chars, List.append_assoc] at hrest
      have hread := t.coefficient.readCoefficient_chars (ends_nameChars t.name rest)
      rw [hrest] at hread
      rw [hread] at hname
      exact readName?_chars_ne_none t.name rest hname
  · rintro ⟨c', htext', hlacks⟩
    -- Neither coefficient is longer than the other, so that the same text is left.
    have hrest : (readCoefficient text).2 = unread := by
      have hle := hlength c' unread htext'
      have hge := hlacks.longest c ⟨_, htext.trans htext'.symm⟩
      have heq := htext.trans htext'.symm
      have := congrArg List.length heq
      simp only [List.length_append] at this
      exact (List.append_inj heq (by omega)).2
    refine ⟨?_, hrest⟩
    cases hname : readName? (readCoefficient text).2 with
    | none => rfl
    | some r =>
      obtain ⟨n, hn, -, -⟩ := exists_of_readName? hname
      refine absurd ⟨r.2, ?_⟩ (hlacks.no_monomial ⟨c, n⟩)
      rw [Monomial.chars, List.append_assoc, hn, htext, htext']

end LinProg
