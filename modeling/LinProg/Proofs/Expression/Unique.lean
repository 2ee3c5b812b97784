import LinProg.Proofs.Expression.Reading

set_option autoImplicit false

/-! # Uniqueness of the split

A text can be cut into an expression in one way at most. Each part of a split is determined by the
text from its start on, because what follows it does not continue it; the parts are compared one by
one from the left, and the links by induction. -/

namespace LinProg.Grammar

open Text Numeral

/-! ## Parts of a term -/

@[ext] theorem Space.ext {s s' : Space} (h : s.chars = s'.chars) : s = s' := by
  cases s
  cases s'
  cases h
  rfl

theorem Space.append_inj {s s' : Space} {text text' : List Char} (h : Ends isWhiteSpace text)
    (h' : Ends isWhiteSpace text') (heq : s.chars ++ text = s'.chars ++ text') :
    s = s' ∧ text = text' := by
  obtain ⟨hs, htext⟩ := append_run_inj s.all_white s'.all_white h h' heq
  exact ⟨Space.ext hs, htext⟩

theorem Name.append_inj {n n' : Name} {text text' : List Char} (h : Ends Char.isAlphanum text)
    (h' : Ends Char.isAlphanum text') (heq : n.chars ++ text = n'.chars ++ text') :
    n = n' ∧ text = text' := by
  obtain ⟨first, more, halpha, halnum⟩ := n
  obtain ⟨first', more', halpha', halnum'⟩ := n'
  simp only [Name.chars, List.cons_append, List.cons.injEq] at heq
  obtain ⟨rfl, hrest⟩ := heq
  obtain ⟨rfl, rfl⟩ := append_run_inj halnum halnum' h h' hrest
  exact ⟨rfl, rfl⟩

namespace Coefficient

variable {c c' : Coefficient} {text text' : List Char}

theorem signChars_inj (h : c.signChars = c'.signChars) : c.sign = c'.sign := by
  simp only [signChars] at h
  rcases hs : c.sign with _ | s <;> rcases hs' : c'.sign with _ | s' <;> simp [hs, hs'] at h
  · rfl
  · have := congrArg Sign.ofChar? h
    simpa using this

theorem asteriskChars_inj (h : c.asteriskChars = c'.asteriskChars) :
    c.asterisk = c'.asterisk := by
  simp only [asteriskChars] at h
  cases ha : c.asterisk <;> cases ha' : c'.asterisk <;> simp [ha, ha'] at h ⊢

theorem magnitude_inj (h : Ends continuesCoefficient text) (h' : Ends continuesCoefficient text')
    (heq : c.magnitudeChars ++ (c.asteriskChars ++ text) =
      c'.magnitudeChars ++ (c'.asteriskChars ++ text')) :
    c.magnitude = c'.magnitude ∧ c.asteriskChars ++ text = c'.asteriskChars ++ text' := by
  have hdigit := c.ends_isDigit h
  have hpoint := c.ends_point h
  have hdigit' := c'.ends_isDigit h'
  have hpoint' := c'.ends_point h'
  have hread := congrArg readMagnitude? heq
  rcases hm : c.magnitude with _ | m <;> rcases hm' : c'.magnitude with _ | m' <;>
    simp only [magnitudeChars, hm, hm', Option.map_none, Option.map_some, Option.getD_none,
      Option.getD_some, List.nil_append] at heq hread
  · exact ⟨rfl, heq⟩
  · rw [readMagnitude?_eq_none hdigit hpoint,
      readMagnitude?_chars m' hdigit' fun _ => hpoint'] at hread
    cases hread
  · rw [readMagnitude?_eq_none hdigit' hpoint',
      readMagnitude?_chars m hdigit fun _ => hpoint] at hread
    cases hread
  · obtain ⟨rfl, hrest⟩ := Magnitude.chars_append_inj hdigit hdigit' hpoint hpoint' heq
    exact ⟨rfl, hrest⟩

theorem append_inj (h : Ends continuesCoefficient text) (h' : Ends continuesCoefficient text')
    (heq : c.chars ++ text = c'.chars ++ text') : c = c' ∧ text = text' := by
  have hsplit := congrArg splitSign heq
  rw [c.splitSign_chars h, c'.splitSign_chars h', Prod.mk.injEq] at hsplit
  obtain ⟨hmagnitude, hrest⟩ := magnitude_inj h h' hsplit.2
  have hsign : c.sign = c'.sign := by
    simp only [chars, List.append_assoc, hsplit.2] at heq
    exact signChars_inj (List.append_cancel_right heq)
  -- The reader knows where a coefficient ends, so that the asterisks need not be compared.
  have htext : text = text' := by
    have hread := congrArg readCoefficient heq
    rw [c.readCoefficient_chars h, c'.readCoefficient_chars h', Prod.mk.injEq] at hread
    exact hread.2
  have hasterisk : c.asterisk = c'.asterisk := by
    rw [htext] at hrest
    exact asteriskChars_inj (List.append_cancel_right hrest)
  obtain ⟨sign, magnitude, asterisk⟩ := c
  obtain ⟨sign', magnitude', asterisk'⟩ := c'
  cases hsign
  cases hmagnitude
  cases hasterisk
  exact ⟨rfl, htext⟩

end Coefficient

theorem Monomial.append_inj {t t' : Monomial} {text text' : List Char}
    (h : Ends Char.isAlphanum text) (h' : Ends Char.isAlphanum text')
    (heq : t.chars ++ text = t'.chars ++ text') : t = t' ∧ text = text' := by
  obtain ⟨coefficient, name⟩ := t
  obtain ⟨coefficient', name'⟩ := t'
  simp only [Monomial.chars, List.append_assoc] at heq
  obtain ⟨rfl, hrest⟩ := Coefficient.append_inj (ends_nameChars name text)
    (ends_nameChars name' text') heq
  obtain ⟨rfl, rfl⟩ := Name.append_inj h h' hrest
  exact ⟨rfl, rfl⟩

/-! ## Links and whole expressions -/

theorem append_links_inj {links links' : List Link} {trailing trailing' : Space}
    {tail tail' : List Char} (hstops : ∀ c ∈ tail.head?, stopsAt c = true)
    (hstops' : ∀ c ∈ tail'.head?, stopsAt c = true)
    (hends : Ends Char.isAlphanum (trailing.chars ++ tail))
    (hends' : Ends Char.isAlphanum (trailing'.chars ++ tail'))
    (heq : links.flatMap Link.chars ++ (trailing.chars ++ tail) =
      links'.flatMap Link.chars ++ (trailing'.chars ++ tail')) :
    links = links' ∧ trailing = trailing' ∧ tail = tail' := by
  obtain ⟨hspace, hsign⟩ := ends_of_stopsAt hstops
  obtain ⟨hspace', hsign'⟩ := ends_of_stopsAt hstops'
  induction links generalizing links' with
  | nil =>
    cases links' with
    | nil =>
      obtain ⟨rfl, rfl⟩ := Space.append_inj hspace hspace' heq
      exact ⟨rfl, rfl, rfl⟩
    | cons l' links' =>
      simp only [List.flatMap_nil, List.nil_append, List.flatMap_cons, Link.chars,
        List.append_assoc, List.cons_append] at heq
      -- The tail would start with the sign of a link.
      obtain ⟨-, htail⟩ := Space.append_inj hspace (ends_isWhiteSpace_sign l'.sign _) heq
      rw [htail] at hsign
      simp at hsign
  | cons l links ih =>
    cases links' with
    | nil =>
      simp only [List.flatMap_nil, List.nil_append, List.flatMap_cons, Link.chars,
        List.append_assoc, List.cons_append] at heq
      obtain ⟨-, htail⟩ := Space.append_inj (ends_isWhiteSpace_sign l.sign _) hspace' heq
      rw [← htail] at hsign'
      simp at hsign'
    | cons l' links' =>
      obtain ⟨before, sign, between, t⟩ := l
      obtain ⟨before', sign', between', t'⟩ := l'
      simp only [List.flatMap_cons, Link.chars, List.append_assoc, List.cons_append] at heq
      obtain ⟨rfl, hrest⟩ := Space.append_inj (ends_isWhiteSpace_sign sign _)
        (ends_isWhiteSpace_sign sign' _) heq
      rw [List.cons.injEq] at hrest
      have hs : sign = sign' := by simpa using congrArg Sign.ofChar? hrest.1
      subst hs
      obtain ⟨rfl, hterm⟩ := Space.append_inj (ends_isWhiteSpace_monomial t _)
        (ends_isWhiteSpace_monomial t' _) hrest.2
      obtain ⟨rfl, hmore⟩ := Monomial.append_inj (ends_isAlphanum_links links hends)
        (ends_isAlphanum_links links' hends') hterm
      obtain ⟨rfl, rfl, rfl⟩ := ih hmore
      exact ⟨rfl, rfl, rfl⟩

/-- A text has at most one split. -/
theorem Split.chars_injective {s s' : Split} (h : s.chars = s'.chars) : s = s' := by
  obtain ⟨leading, first, links, trailing, tail, hstops, hends⟩ := s
  obtain ⟨leading', first', links', trailing', tail', hstops', hends'⟩ := s'
  simp only [Split.chars, Split.moreChars] at h
  obtain ⟨rfl, hfirst⟩ := Space.append_inj (ends_isWhiteSpace_monomial first _)
    (ends_isWhiteSpace_monomial first' _) h
  obtain ⟨rfl, hmore⟩ := Monomial.append_inj (ends_isAlphanum_links links hends)
    (ends_isAlphanum_links links' hends') hfirst
  obtain ⟨rfl, rfl, rfl⟩ := append_links_inj hstops hstops' hends hends' hmore
  rfl

end LinProg.Grammar
