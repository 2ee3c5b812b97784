import LinProg.Proofs.Expression.Term

set_option autoImplicit false

/-! # Reading expressions

The reader of an expression against the grammar. `readMoreTerms` is related to the links of a
`Split` and to the steps of a `Stuck` by induction, once along the grammar and once along the
recursion of the reader; `readTerms_eq_ok_iff` and `readTerms_eq_error_iff` say that the reader
succeeds on the texts that have a split and fails on those that are stuck. The same for the sum of
the terms is what other modules use (`readExpression_eq_ok_iff`, `readExpression_eq_error_iff`). -/

namespace LinProg

open Text Numeral Grammar

/-! ## White space -/

theorem skipWhiteSpace_space (s : Space) {text : List Char} (h : Ends isWhiteSpace text) :
    skipWhiteSpace (s.chars ++ text) = text :=
  dropWhile_run s.all_white h

theorem exists_of_skipWhiteSpace (text : List Char) :
    ∃ s : Space, s.chars ++ skipWhiteSpace text = text ∧ Ends isWhiteSpace (skipWhiteSpace text) :=
  ⟨⟨text.takeWhile isWhiteSpace, fun _ hc => List.mem_takeWhile_imp hc⟩,
    takeWhile_append_skipWhiteSpace text, ends_dropWhile text⟩

theorem skipWhiteSpace_of_ends {text : List Char} (h : Ends isWhiteSpace text) :
    skipWhiteSpace text = text :=
  skipWhiteSpace_space ⟨[], by simp⟩ h

/-- The white space in the opposite order. -/
def Grammar.Space.reverse (s : Space) : Space :=
  ⟨s.chars.reverse, fun c hc => s.all_white c (List.mem_reverse.1 hc)⟩

/-- Trimming takes off the white space around a text that holds none. -/
theorem trim_spaces (before after : Space) {text : List Char}
    (h : ∀ c ∈ text, isWhiteSpace c = false) :
    trim (before.chars ++ (text ++ after.chars)) = text := by
  have hback : Ends isWhiteSpace text.reverse := by
    intro c hc
    exact h c (List.mem_reverse.1 (List.mem_of_mem_head? hc))
  rw [trim]
  rcases text with _ | ⟨c, text⟩
  · have hall : ∀ c ∈ before.chars ++ after.chars, isWhiteSpace c = true := by
      intro c hc
      exact (List.mem_append.1 hc).elim (before.all_white c) (after.all_white c)
    have hskip := skipWhiteSpace_space ⟨_, hall⟩ ends_nil
    rw [List.append_nil] at hskip
    rw [List.nil_append, hskip]
    rfl
  · have hfront : Ends isWhiteSpace (c :: text ++ after.chars) := ends_cons.2 (h c (by simp))
    rw [skipWhiteSpace_space before hfront, List.reverse_append]
    have hskip := skipWhiteSpace_space after.reverse hback
    rw [Space.reverse] at hskip
    rw [hskip, List.reverse_reverse]

/-- What is trimmed off is white space. -/
theorem exists_of_trim (text : List Char) :
    ∃ before after : Space, before.chars ++ (trim text ++ after.chars) = text := by
  obtain ⟨before, hbefore, -⟩ := exists_of_skipWhiteSpace text
  obtain ⟨after, hafter, -⟩ := exists_of_skipWhiteSpace (skipWhiteSpace text).reverse
  refine ⟨before, after.reverse, ?_⟩
  have hreverse := congrArg List.reverse hafter
  rw [List.reverse_append, List.reverse_reverse] at hreverse
  exact hreverse ▸ hbefore

/-- A text is trimmed to a part without white space exactly if nothing but white space is around
    that part. -/
theorem trim_eq_iff {text core : List Char} (h : ∀ c ∈ core, isWhiteSpace c = false) :
    trim text = core ↔
      ∃ before after : Space, before.chars ++ (core ++ after.chars) = text := by
  constructor
  · rintro rfl
    exact exists_of_trim text
  · rintro ⟨before, after, rfl⟩
    exact trim_spaces before after h

theorem ends_isWhiteSpace_coefficient (c : Coefficient) {text : List Char}
    (h : Ends isWhiteSpace text) : Ends isWhiteSpace (c.chars ++ text) := by
  have hbody : Ends isWhiteSpace (c.magnitudeChars ++ (c.asteriskChars ++ text)) := by
    refine c.ends_body ?_ (Or.inr h)
    rintro d (hdigit | rfl | rfl)
    · exact not_isWhiteSpace_of_isAlphanum (isAlphanum_of_isDigit hdigit)
    · decide
    · decide
  rw [Coefficient.chars, List.append_assoc, List.append_assoc]
  rcases hs : c.sign with _ | s
  · simpa [Coefficient.signChars, hs] using hbody
  · simpa [Coefficient.signChars, hs] using isWhiteSpace_signChar s

theorem ends_isWhiteSpace_monomial (t : Monomial) (text : List Char) :
    Ends isWhiteSpace (t.chars ++ text) := by
  have hname : Ends isWhiteSpace (t.name.chars ++ text) :=
    ends_cons.2 (not_isWhiteSpace_of_isAlphanum (isAlphanum_of_isAlpha t.name.first_isAlpha))
  rw [Monomial.chars, List.append_assoc]
  exact ends_isWhiteSpace_coefficient t.coefficient hname

/-- White space before a sign does not continue a name. -/
theorem ends_isAlphanum_space (s : Space) {text : List Char} (h : Ends Char.isAlphanum text) :
    Ends Char.isAlphanum (s.chars ++ text) := by
  rcases hs : s.chars with _ | ⟨c, cs⟩
  · exact h
  · exact ends_cons.2 (not_isAlphanum_of_isWhiteSpace (s.all_white c (by simp [hs])))

theorem ends_isAlphanum_sign (before : Space) (sign : Sign) (text : List Char) :
    Ends Char.isAlphanum (before.chars ++ sign.char :: text) :=
  ends_isAlphanum_space before (ends_cons.2 (isAlphanum_signChar sign))

theorem ends_isWhiteSpace_sign (sign : Sign) (text : List Char) :
    Ends isWhiteSpace (sign.char :: text) :=
  ends_cons.2 (isWhiteSpace_signChar sign)

/-- The end of an expression is neither white space nor a sign. -/
theorem ends_of_stopsAt {tail : List Char} (h : ∀ c ∈ tail.head?, stopsAt c = true) :
    Ends isWhiteSpace tail ∧ Ends isSign tail := by
  constructor
  · intro c hc
    have := h c hc
    simp only [stopsAt, Bool.and_eq_true, Bool.not_eq_true'] at this
    exact this.1.1
  · intro c hc
    have := h c hc
    cases hs : Sign.ofChar? c with
    | none => simp [isSign, hs]
    | some s =>
      rw [Sign.ofChar?_eq_some.1 hs] at this
      cases s <;> simp [stopsAt, Sign.char] at this

theorem stopsAt_of_ends {tail : List Char} (hspace : Ends isWhiteSpace tail)
    (hsign : Ends isSign tail) : ∀ c ∈ tail.head?, stopsAt c = true := by
  intro c hc
  have hs := hsign c hc
  have hplus : c ≠ '+' := by
    rintro rfl
    exact absurd hs (by decide)
  have hminus : c ≠ '-' := by
    rintro rfl
    exact absurd hs (by decide)
  simp [stopsAt, hspace c hc, hplus, hminus]

/-- The text after a name in a split does not continue the name. -/
theorem ends_isAlphanum_links (links : List Link) {text : List Char}
    (h : Ends Char.isAlphanum text) : Ends Char.isAlphanum (links.flatMap Link.chars ++ text) := by
  cases links with
  | nil => exact h
  | cons l links =>
    simpa [Link.chars] using ends_isAlphanum_sign l.before l.sign _

/-! ## One step of the reader -/

theorem readMoreTerms_of_none {text : List Char} (h : readSign? (skipWhiteSpace text) = none) :
    readMoreTerms text = .ok ([], skipWhiteSpace text) := by
  rw [readMoreTerms]
  split
  · rfl
  · next hs => simp [h] at hs

theorem readMoreTerms_of_error {text body unread : List Char} {sign : Sign}
    (h : readSign? (skipWhiteSpace text) = some (sign, body))
    (ht : readTerm (skipWhiteSpace body) = .error unread) :
    readMoreTerms text = .error unread := by
  rw [readMoreTerms]
  split
  · next hs => simp [h] at hs
  · next hs =>
    rw [h] at hs
    cases hs
    split
    · next hr =>
      rw [ht] at hr
      cases hr
      rfl
    · next hr => simp [ht] at hr

theorem readMoreTerms_of_ok {text body after : List Char} {sign : Sign} {t : Term}
    (h : readSign? (skipWhiteSpace text) = some (sign, body))
    (ht : readTerm (skipWhiteSpace body) = .ok (t, after)) :
    readMoreTerms text = (readMoreTerms after).map fun r => (t.signed sign :: r.1, r.2) := by
  rw [readMoreTerms]
  split
  · next hs => simp [h] at hs
  · next hs =>
    rw [h] at hs
    cases hs
    split
    · next hr => simp [ht] at hr
    · next hr =>
      rw [ht] at hr
      cases hr
      rfl

/-- A sign is found behind white space. -/
theorem readSign?_space_sign (before : Space) (sign : Sign) (text : List Char) :
    readSign? (skipWhiteSpace (before.chars ++ sign.char :: text)) = some (sign, text) := by
  rw [skipWhiteSpace_space before (ends_isWhiteSpace_sign sign text)]
  simp [readSign?]

/-- A term is found behind white space. -/
theorem readTerm_space_monomial (between : Space) (t : Monomial) {text : List Char}
    (h : Ends Char.isAlphanum text) :
    readTerm (skipWhiteSpace (between.chars ++ (t.chars ++ text))) = .ok (t.term, text) := by
  rw [skipWhiteSpace_space between (ends_isWhiteSpace_monomial t text)]
  exact readTerm_chars t h

/-! ## What the reader accepts -/

theorem readMoreTerms_links (links : List Link) (trailing : Space) {tail : List Char}
    (hstops : ∀ c ∈ tail.head?, stopsAt c = true)
    (hends : Ends Char.isAlphanum (trailing.chars ++ tail)) :
    readMoreTerms (links.flatMap Link.chars ++ (trailing.chars ++ tail)) =
      .ok (links.map Link.term, tail) := by
  obtain ⟨hspace, hsign⟩ := ends_of_stopsAt hstops
  induction links with
  | nil =>
    have hskip := skipWhiteSpace_space trailing hspace
    have := readMoreTerms_of_none (hskip ▸ readSign?_eq_none_iff.2 hsign)
    rwa [hskip] at this
  | cons l links ih =>
    have hafter := ends_isAlphanum_links links hends
    have hstep := readMoreTerms_of_ok (readSign?_space_sign l.before l.sign _)
      (readTerm_space_monomial l.between l.monomial hafter)
    simp only [List.flatMap_cons, Link.chars, List.append_assoc, List.cons_append]
    rw [hstep, ih]
    rfl

/-- What the reader accepts after a term are links, and it stops where the grammar does. -/
theorem exists_of_readMoreTerms_ok (text : List Char) {terms : List Term} {rest : List Char}
    (hends : Ends Char.isAlphanum text) (h : readMoreTerms text = .ok (terms, rest)) :
    ∃ (links : List Link) (trailing : Space),
      links.flatMap Link.chars ++ (trailing.chars ++ rest) = text ∧
        links.map Link.term = terms ∧ (∀ c ∈ rest.head?, stopsAt c = true) ∧
          Ends Char.isAlphanum (trailing.chars ++ rest) := by
  -- Along the recursion of the reader, which goes on after every term that follows a sign.
  induction text using readMoreTerms.induct generalizing terms with
  | case1 text hs =>
    rw [readMoreTerms_of_none hs] at h
    cases h
    obtain ⟨trailing, htext, hspace⟩ := exists_of_skipWhiteSpace text
    refine ⟨[], trailing, htext, rfl, stopsAt_of_ends hspace (readSign?_eq_none_iff.1 hs), ?_⟩
    rwa [htext]
  | case2 text sign body hs unread ht =>
    rw [readMoreTerms_of_error hs ht] at h
    cases h
  | case3 text sign body hs t after ht ih =>
    rw [readMoreTerms_of_ok hs ht] at h
    obtain ⟨before, htext, -⟩ := exists_of_skipWhiteSpace text
    obtain ⟨between, hbody, -⟩ := exists_of_skipWhiteSpace body
    obtain ⟨m, hm, rfl, hafter⟩ := exists_of_readTerm_ok ht
    cases hmore : readMoreTerms after with
    | error unread => simp [hmore, Except.map] at h
    | ok r =>
      simp only [hmore, Except.map, Except.ok.injEq, Prod.mk.injEq] at h
      obtain ⟨rfl, rfl⟩ := h
      obtain ⟨links, trailing, hlinks, hterms, hstops, htrailing⟩ := ih hafter hmore
      refine ⟨⟨before, sign, between, m⟩ :: links, trailing, ?_, ?_, hstops, htrailing⟩
      · rw [← htext, readSign?_eq_some hs, ← hbody, ← hm, ← hlinks]
        simp [Link.chars]
      · rw [List.map_cons, hterms]
        rfl

theorem readTerms_split (s : Split) : readTerms s.chars = .ok (s.terms, s.tail) := by
  have hfirst : readTerm (skipWhiteSpace s.chars) = .ok (s.first.term, s.moreChars) :=
    readTerm_space_monomial s.leading s.first (ends_isAlphanum_links s.links s.name_ends)
  rw [readTerms, hfirst]
  simp only [Split.moreChars, readMoreTerms_links s.links s.trailing s.tail_stops s.name_ends]
  rfl

/-- The reader accepts the texts that have a split, and reads what the split says. -/
theorem readTerms_eq_ok_iff {text : List Char} {terms : List Term} {rest : List Char} :
    readTerms text = .ok (terms, rest) ↔
      ∃ s : Split, s.chars = text ∧ s.terms = terms ∧ s.tail = rest := by
  constructor
  · intro h
    obtain ⟨leading, htext, -⟩ := exists_of_skipWhiteSpace text
    rw [readTerms] at h
    split at h
    · cases h
    · next t after ht =>
      obtain ⟨first, hfirst, rfl, hafter⟩ := exists_of_readTerm_ok ht
      cases hmore : readMoreTerms after with
      | error unread => simp [hmore, Except.map] at h
      | ok r =>
        simp only [hmore, Except.map, Except.ok.injEq, Prod.mk.injEq] at h
        obtain ⟨rfl, rfl⟩ := h
        obtain ⟨links, trailing, hlinks, hterms, hstops, hends⟩ :=
          exists_of_readMoreTerms_ok after hafter hmore
        refine ⟨⟨leading, first, links, trailing, r.2, hstops, hends⟩, ?_, ?_, rfl⟩
        · rw [Split.chars, Split.moreChars, hlinks, hfirst, htext]
        · rw [Split.terms, hterms]
  · rintro ⟨s, rfl, rfl, rfl⟩
    exact readTerms_split s

/-! ## Where the reader fails -/

theorem readMoreTerms_steps (steps : List Step) (before : Space) (sign : Sign) (between : Space)
    {coefficient : Coefficient} {unread : List Char}
    (hspace : Ends isWhiteSpace (coefficient.chars ++ unread))
    (hlacks : LacksName coefficient unread) :
    readMoreTerms (before.chars ++ sign.char :: (between.chars ++
      (steps.flatMap Step.chars ++ (coefficient.chars ++ unread)))) = .error unread := by
  induction steps generalizing before sign between with
  | nil =>
    refine readMoreTerms_of_error (readSign?_space_sign before sign _) ?_
    rw [skipWhiteSpace_space between (by simpa using hspace)]
    exact readTerm_eq_error_iff.2 ⟨coefficient, rfl, hlacks⟩
  | cons s steps ih =>
    have hstep := readMoreTerms_of_ok (readSign?_space_sign before sign _)
      (readTerm_space_monomial between s.monomial (ends_isAlphanum_sign s.before s.sign
        (s.between.chars ++ (steps.flatMap Step.chars ++ (coefficient.chars ++ unread)))))
    simp only [List.flatMap_cons, Step.chars, List.append_assoc, List.cons_append]
    rw [hstep, ih]
    rfl

/-- Where the reader fails after a term, a sign comes and then, after further terms or at once, a
    term without a name. -/
theorem exists_of_readMoreTerms_error (text : List Char) {unread : List Char}
    (h : readMoreTerms text = .error unread) :
    ∃ (before : Space) (sign : Sign) (between : Space) (steps : List Step)
      (coefficient : Coefficient),
      before.chars ++ sign.char :: (between.chars ++
        (steps.flatMap Step.chars ++ (coefficient.chars ++ unread))) = text ∧
          Ends isWhiteSpace (coefficient.chars ++ unread) ∧ LacksName coefficient unread := by
  induction text using readMoreTerms.induct with
  | case1 text hs =>
    rw [readMoreTerms_of_none hs] at h
    cases h
  | case2 text sign body hs unread' ht =>
    rw [readMoreTerms_of_error hs ht] at h
    cases h
    obtain ⟨before, htext, -⟩ := exists_of_skipWhiteSpace text
    obtain ⟨between, hbody, hspace⟩ := exists_of_skipWhiteSpace body
    obtain ⟨coefficient, hc, hlacks⟩ := readTerm_eq_error_iff.1 ht
    refine ⟨before, sign, between, [], coefficient, ?_, hc ▸ hspace, hlacks⟩
    rw [← htext, readSign?_eq_some hs, ← hbody, ← hc]
    rfl
  | case3 text sign body hs t after ht ih =>
    rw [readMoreTerms_of_ok hs ht] at h
    obtain ⟨before, htext, -⟩ := exists_of_skipWhiteSpace text
    obtain ⟨between, hbody, -⟩ := exists_of_skipWhiteSpace body
    obtain ⟨m, hm, -, -⟩ := exists_of_readTerm_ok ht
    cases hmore : readMoreTerms after with
    | ok r => simp [hmore, Except.map] at h
    | error unread' =>
      simp only [hmore, Except.map, Except.error.injEq] at h
      subst h
      obtain ⟨before', sign', between', steps, coefficient, hafter, hspace, hlacks⟩ := ih hmore
      refine ⟨before, sign, between, ⟨m, before', sign', between'⟩ :: steps, coefficient, ?_,
        hspace, hlacks⟩
      rw [← htext, readSign?_eq_some hs, ← hbody, ← hm, ← hafter]
      simp [Step.chars]

theorem readTerms_stuck (k : Stuck) : readTerms k.chars = .error k.unread := by
  rw [Stuck.chars]
  cases k.steps with
  | nil =>
    have hterm : readTerm (k.coefficient.chars ++ k.unread) = .error k.unread :=
      readTerm_eq_error_iff.2 ⟨k.coefficient, rfl, k.lacksName⟩
    rw [readTerms, List.flatMap_nil, List.nil_append, skipWhiteSpace_space k.leading k.space_ends,
      hterm]
  | cons s steps =>
    have hfirst := readTerm_space_monomial k.leading s.monomial (ends_isAlphanum_sign s.before
      s.sign (s.between.chars ++ (steps.flatMap Step.chars ++ (k.coefficient.chars ++ k.unread))))
    simp only [List.flatMap_cons, Step.chars, List.append_assoc, List.cons_append, readTerms]
    rw [hfirst]
    simp only [readMoreTerms_steps steps s.before s.sign s.between k.space_ends k.lacksName]
    rfl

/-- The reader fails on the texts that are stuck, where they are. -/
theorem readTerms_eq_error_iff {text unread : List Char} :
    readTerms text = .error unread ↔ ∃ k : Stuck, k.chars = text ∧ k.unread = unread := by
  constructor
  · intro h
    obtain ⟨leading, htext, hspace⟩ := exists_of_skipWhiteSpace text
    rw [readTerms] at h
    split at h
    · next ht =>
      cases h
      obtain ⟨coefficient, hc, hlacks⟩ := readTerm_eq_error_iff.1 ht
      rw [← hc] at hspace htext
      exact ⟨⟨leading, [], coefficient, unread, hspace, hlacks⟩, htext, rfl⟩
    · next t after ht =>
      obtain ⟨m, hm, -, -⟩ := exists_of_readTerm_ok ht
      cases hmore : readMoreTerms after with
      | ok r => simp [hmore, Except.map] at h
      | error unread' =>
        simp only [hmore, Except.map, Except.error.injEq] at h
        subst h
        obtain ⟨before, sign, between, steps, coefficient, hafter, hspace', hlacks⟩ :=
          exists_of_readMoreTerms_error after hmore
        refine ⟨⟨leading, ⟨m, before, sign, between⟩ :: steps, coefficient, unread', hspace',
          hlacks⟩, ?_, rfl⟩
        rw [← htext, ← hm, ← hafter]
        simp [Stuck.chars, Step.chars]
  · rintro ⟨k, rfl, rfl⟩
    exact readTerms_stuck k

/-! ## Whole expressions -/

/-- The reader of an expression succeeds with the sum of a split's terms. -/
theorem readExpression_eq_ok_iff {text rest : List Char} {e : Expression} :
    readExpression text = .ok (e, rest) ↔
      ∃ s : Split, s.chars = text ∧ Expression.sum s.terms = e ∧ s.tail = rest := by
  rw [readExpression]
  constructor
  · intro h
    cases hread : readTerms text with
    | error unread => simp [hread, Except.map] at h
    | ok r =>
      obtain ⟨s, hs, hterms, htail⟩ := readTerms_eq_ok_iff.1 hread
      rw [hread] at h
      cases h
      exact ⟨s, hs, congrArg Expression.sum hterms, htail⟩
  · rintro ⟨s, hs, rfl, rfl⟩
    rw [readTerms_eq_ok_iff.2 ⟨s, hs, rfl, rfl⟩]
    rfl

/-- Without its tail an expression is read to the end. -/
theorem Grammar.Split.readExpression_expressionChars (s : Split) :
    readExpression s.expressionChars = .ok (.sum s.terms, []) := by
  let kept := s.withTail [] (by simp) (ends_isAlphanum_space s.trailing ends_nil)
  have hchars : s.expressionChars ++ [] = kept.chars := kept.expressionChars_append_tail
  rw [List.append_nil] at hchars
  exact readExpression_eq_ok_iff.2 ⟨kept, hchars.symm, rfl, rfl⟩

theorem readExpression_eq_error_iff {text unread : List Char} :
    readExpression text = .error unread ↔
      ∃ k : Stuck, k.chars = text ∧ k.unread = unread := by
  rw [readExpression, ← readTerms_eq_error_iff]
  cases readTerms text with
  | error unread' => simp [Except.map]
  | ok r => simp [Except.map]

end LinProg
