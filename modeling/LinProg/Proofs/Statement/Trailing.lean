import LinProg.Proofs.Statement.Direction
import LinProg.Proofs.Statement.Failure

set_option autoImplicit false

/-! # White space after a text

No part of a statement goes on with white space. So a reader leaves the white space that comes after
a text over (`readTerm_append`), or it skips it where it skips white space anyway
(`Trails.skipWhiteSpace`). In either case it reads the same as without that white space, or fails as
well, and what it leaves over differs in white space at the end (`SameStart`, `SameReading`). -/

namespace LinProg

open Text Numeral Grammar

/-! ## Text that continues no term -/

section Append

variable {p : Char → Bool} {more : List Char}

theorem takeWhile_append_of_ends (text : List Char) (h : Ends p more) :
    (text ++ more).takeWhile p = text.takeWhile p := by
  induction text with
  | nil => exact takeWhile_run (List.forall_mem_nil _) h
  | cons c text ih => rw [List.cons_append, List.takeWhile_cons, List.takeWhile_cons, ih]

theorem dropWhile_append_of_ends (text : List Char) (h : Ends p more) :
    (text ++ more).dropWhile p = text.dropWhile p ++ more := by
  induction text with
  | nil => exact dropWhile_run (List.forall_mem_nil _) h
  | cons c text ih =>
    rw [List.cons_append, List.dropWhile_cons, List.dropWhile_cons, ih]
    split <;> rfl

theorem readName?_append (text : List Char) (h : Ends Char.isAlphanum more) :
    readName? (text ++ more) = (readName? text).map fun r => (r.1, r.2 ++ more) := by
  cases text with
  | nil => exact readName?_eq_none_iff.2 (h.mono fun _ => isAlphanum_of_isAlpha)
  | cons c text =>
    rw [List.cons_append, readName?, readName?, takeWhile_append_of_ends text h,
      dropWhile_append_of_ends text h]
    split <;> rfl

theorem readSign?_append (text : List Char) (h : Ends isSign more) :
    readSign? (text ++ more) = (readSign? text).map fun r => (r.1, r.2 ++ more) := by
  cases text with
  | nil => exact readSign?_eq_none_iff.2 h
  | cons c text =>
    rw [List.cons_append, readSign?, readSign?]
    cases Sign.ofChar? c <;> rfl

theorem splitSign_append (text : List Char) (h : Ends isSign more) :
    splitSign (text ++ more) = ((splitSign text).1, (splitSign text).2 ++ more) := by
  rw [splitSign, splitSign, readSign?_append text h]
  cases readSign? text <;> rfl

theorem readFraction?_append (text : List Char) (h : Ends continuesCoefficient more) :
    readFraction? (text ++ more) = (readFraction? text).map fun r => (r.1, r.2 ++ more) := by
  by_cases hpoint : ∃ body, text = '.' :: body
  · obtain ⟨body, rfl⟩ := hpoint
    rw [List.cons_append, readFraction?, readFraction?, digits, digits, afterDigits, afterDigits,
      takeWhile_append_of_ends body h.isDigit, dropWhile_append_of_ends body h.isDigit]
    split <;> rfl
  · have hends : Ends (· == '.') text :=
      ends_of_ne_cons fun body hbody => hpoint ⟨body, hbody⟩
    rw [readFraction?_eq_none hends, readFraction?_eq_none (hends.append h.point)]
    rfl

theorem readMagnitude?_append (text : List Char) (h : Ends continuesCoefficient more) :
    readMagnitude? (text ++ more) = (readMagnitude? text).map fun r => (r.1, r.2 ++ more) := by
  have hdigits : digits (text ++ more) = digits text := takeWhile_append_of_ends text h.isDigit
  have hafter : afterDigits (text ++ more) = afterDigits text ++ more :=
    dropWhile_append_of_ends text h.isDigit
  rw [readMagnitude?, readMagnitude?, hdigits, hafter, readFraction?_append _ h]
  cases readFraction? (afterDigits text) with
  | some r => rfl
  | none =>
    dsimp only [Option.map_none]
    split <;> rfl

theorem splitMagnitude_append (text : List Char) (h : Ends continuesCoefficient more) :
    splitMagnitude (text ++ more) = ((splitMagnitude text).1, (splitMagnitude text).2 ++ more) := by
  rw [splitMagnitude, splitMagnitude, readMagnitude?_append text h]
  cases readMagnitude? text <;> rfl

theorem skipAsterisk_append (text : List Char) (h : Ends continuesCoefficient more) :
    skipAsterisk (text ++ more) = skipAsterisk text ++ more := by
  by_cases hasterisk : ∃ body, text = '*' :: body
  · obtain ⟨body, rfl⟩ := hasterisk
    rfl
  · have hends : Ends (· == '*') text :=
      ends_of_ne_cons fun body hbody => hasterisk ⟨body, hbody⟩
    rw [skipAsterisk_of_ends hends, skipAsterisk_of_ends (hends.append h.asterisk)]

theorem readCoefficient_append (text : List Char) (h : Ends continuesCoefficient more) :
    readCoefficient (text ++ more) =
      ((readCoefficient text).1, (readCoefficient text).2 ++ more) := by
  simp only [readCoefficient, splitSign_append text h.isSign, splitMagnitude_append _ h,
    skipAsterisk_append _ h]

/-- A term that is read, or lacks its name, is so whatever comes after it that continues neither a
    coefficient nor a name. -/
theorem readTerm_append (text : List Char) (hcoefficient : Ends continuesCoefficient more)
    (hname : Ends Char.isAlphanum more) :
    readTerm (text ++ more) = match readTerm text with
      | .ok (t, rest) => .ok (t, rest ++ more)
      | .error unread => .error (unread ++ more) := by
  simp only [readTerm, readCoefficient_append text hcoefficient, readName?_append _ hname]
  cases readName? (readCoefficient text).2 <;> rfl

end Append

/-! ## White space after a text -/

theorem beq_eq_false_of_isWhiteSpace {c d : Char} (hc : isWhiteSpace c = true)
    (hd : isWhiteSpace d = false) : (c == d) = false := by
  rw [beq_eq_false_iff_ne]
  rintro rfl
  rw [hc] at hd
  cases hd

theorem not_isSign_of_isWhiteSpace {c : Char} (h : isWhiteSpace c = true) : isSign c = false := by
  cases hs : Sign.ofChar? c with
  | none => simp [isSign, hs]
  | some s =>
    rw [Sign.ofChar?_eq_some.1 hs, isWhiteSpace_signChar] at h
    cases h

theorem not_continuesCoefficient_of_isWhiteSpace {c : Char} (h : isWhiteSpace c = true) :
    continuesCoefficient c = false := by
  have hdigit : c.isDigit = false := by
    rw [Bool.eq_false_iff]
    intro hdigit
    rw [not_isWhiteSpace_of_isAlphanum (isAlphanum_of_isDigit hdigit)] at h
    cases h
  rw [continuesCoefficient, hdigit, not_isSign_of_isWhiteSpace h,
    beq_eq_false_of_isWhiteSpace h (by decide), beq_eq_false_of_isWhiteSpace h (by decide)]
  rfl

theorem not_startsRelation_of_isWhiteSpace {c : Char} (h : isWhiteSpace c = true) :
    startsRelation c = false := by
  rw [startsRelation, beq_eq_false_of_isWhiteSpace h (by decide),
    beq_eq_false_of_isWhiteSpace h (by decide), beq_eq_false_of_isWhiteSpace h (by decide)]
  rfl

theorem Direction.not_isWhiteSpace_of_mem_keyword (d : Direction) :
    ∀ c ∈ d.keyword, isWhiteSpace c = false := by
  have hall : d.keyword.all (fun c => !isWhiteSpace c) = true := by
    cases d <;> rfl
  intro c hc
  exact (Bool.not_eq_true' _).mp (List.all_eq_true.1 hall c hc)

/-- White space ends every run of characters of a class that has none of it. -/
theorem Grammar.Space.ends (s : Space) {p : Char → Bool}
    (h : ∀ c, isWhiteSpace c = true → p c = false) : Ends p s.chars := by
  intro c hc
  exact h c (s.all_white c (List.mem_of_mem_head? hc))

/-- White space and more of it. -/
def Grammar.Space.append (s t : Space) : Space :=
  ⟨s.chars ++ t.chars, fun c hc => (List.mem_append.1 hc).elim (s.all_white c) (t.all_white c)⟩

/-- Whether a text is another one with white space after it. -/
def Trails (text text' : List Char) : Prop :=
  ∃ after : Space, text' = text ++ after.chars

section Trails

variable {text text' : List Char}

/-- White space after a text is skipped if nothing else is left of the text. -/
theorem Trails.skipWhiteSpace (h : Trails text text') :
    Trails (skipWhiteSpace text) (skipWhiteSpace text') := by
  obtain ⟨after, rfl⟩ := h
  obtain ⟨before, htext, hends⟩ := exists_of_skipWhiteSpace text
  generalize Text.skipWhiteSpace text = rest at htext hends
  rw [← htext, List.append_assoc]
  cases rest with
  | nil =>
    have hskip := skipWhiteSpace_space (before.append after) ends_nil
    rw [List.append_nil] at hskip
    exact ⟨⟨[], by simp⟩, hskip⟩
  | cons c rest =>
    exact ⟨after, skipWhiteSpace_space before (ends_cons.2 (ends_cons.1 hends))⟩

theorem Trails.trim_eq (h : Trails text text') : trim text' = trim text := by
  obtain ⟨after, hskip⟩ := h.skipWhiteSpace
  have hback : Text.skipWhiteSpace (after.reverse.chars ++ (Text.skipWhiteSpace text).reverse) =
      Text.skipWhiteSpace (Text.skipWhiteSpace text).reverse :=
    List.dropWhile_append_of_pos after.reverse.all_white
  rw [trim, hskip, List.reverse_append, trim, ← hback]
  rfl

/-- A text without white space starts the longer text only if it starts the other one. -/
theorem Trails.prefix_iff (h : Trails text text') {start : List Char}
    (hstart : ∀ c ∈ start, isWhiteSpace c = false) : start <+: text' ↔ start <+: text := by
  obtain ⟨after, rfl⟩ := h
  refine ⟨fun hprefix => ?_, fun hprefix => hprefix.trans (List.prefix_append _ _)⟩
  rcases List.prefix_or_prefix_of_prefix hprefix (List.prefix_append text after.chars) with h | h
  · exact h
  · obtain ⟨more, rfl⟩ := h
    have hmore : more <+: after.chars := (List.prefix_append_right_inj text).1 hprefix
    have hnil : more = [] := by
      refine List.eq_nil_iff_forall_not_mem.2 fun c hc => ?_
      have hwhite := after.all_white c (hmore.subset hc)
      rw [hstart c (List.mem_append_right text hc)] at hwhite
      cases hwhite
    exact ⟨[], by rw [hnil, List.append_nil, List.append_nil]⟩

end Trails

/-! ## Readers -/

/-- What two readings have in common that may find nothing: they read the same, and leave texts over
    that differ in white space at the end. -/
inductive SameStart {α : Type} : Option (α × List Char) → Option (α × List Char) → Prop
  | found {rest rest' : List Char} (a : α) (h : Trails rest rest') :
      SameStart (some (a, rest)) (some (a, rest'))
  | absent : SameStart none none

/-- The same for readings that may fail. Both fail, or none does. -/
inductive SameReading {α : Type} :
    Except (List Char) (α × List Char) → Except (List Char) (α × List Char) → Prop
  | read {rest rest' : List Char} (a : α) (h : Trails rest rest') :
      SameReading (.ok (a, rest)) (.ok (a, rest'))
  | failed (unread unread' : List Char) : SameReading (.error unread) (.error unread')

section Same

variable {α β : Type} {a : α} {rest : List Char}

theorem SameStart.eq_none {o : Option (α × List Char)} (h : SameStart none o) : o = none := by
  cases h
  rfl

theorem SameStart.exists_found {o : Option (α × List Char)} (h : SameStart (some (a, rest)) o) :
    ∃ rest', o = some (a, rest') ∧ Trails rest rest' := by
  cases h with
  | found a h => exact ⟨_, rfl, h⟩

theorem SameReading.exists_failed {r : Except (List Char) (α × List Char)}
    (h : SameReading (.error rest) r) : ∃ unread', r = .error unread' := by
  cases h
  exact ⟨_, rfl⟩

theorem SameReading.exists_read {r : Except (List Char) (α × List Char)}
    (h : SameReading (.ok (a, rest)) r) : ∃ rest', r = .ok (a, rest') ∧ Trails rest rest' := by
  cases h with
  | read a h => exact ⟨_, rfl, h⟩

theorem SameReading.map {r r' : Except (List Char) (α × List Char)} (h : SameReading r r')
    (f : α → β) : SameReading (r.map fun x => (f x.1, x.2)) (r'.map fun x => (f x.1, x.2)) := by
  cases h with
  | read a h => exact .read (f a) h
  | failed unread unread' => exact .failed unread unread'

end Same

section Readers

variable {text text' : List Char} (h : Trails text text')

include h

theorem sameStart_readName? : SameStart (readName? text) (readName? text') := by
  obtain ⟨after, rfl⟩ := h
  rw [readName?_append text (after.ends fun _ => not_isAlphanum_of_isWhiteSpace)]
  cases readName? text with
  | none => exact .absent
  | some r => exact .found r.1 ⟨after, rfl⟩

theorem sameStart_readSign? : SameStart (readSign? text) (readSign? text') := by
  obtain ⟨after, rfl⟩ := h
  rw [readSign?_append text (after.ends fun _ => not_continuesCoefficient_of_isWhiteSpace).isSign]
  cases readSign? text with
  | none => exact .absent
  | some r => exact .found r.1 ⟨after, rfl⟩

theorem sameReading_readTerm : SameReading (readTerm text) (readTerm text') := by
  obtain ⟨after, rfl⟩ := h
  rw [readTerm_append text (after.ends fun _ => not_continuesCoefficient_of_isWhiteSpace)
    (after.ends fun _ => not_isAlphanum_of_isWhiteSpace)]
  cases readTerm text with
  | error unread => exact .failed _ _
  | ok r => exact .read r.1 ⟨after, rfl⟩

theorem sameReading_readMoreTerms : SameReading (readMoreTerms text) (readMoreTerms text') := by
  -- Along the recursion on the shorter text. A sign that follows a term there follows it in both.
  induction text using readMoreTerms.induct generalizing text' with
  | case1 text hs =>
    have hs' := (hs ▸ sameStart_readSign? h.skipWhiteSpace).eq_none
    rw [readMoreTerms_of_none hs, readMoreTerms_of_none hs']
    exact .read [] h.skipWhiteSpace
  | case2 text sign body hs unread ht =>
    obtain ⟨body', hs', hbody⟩ := (hs ▸ sameStart_readSign? h.skipWhiteSpace).exists_found
    obtain ⟨unread', ht'⟩ := (ht ▸ sameReading_readTerm hbody.skipWhiteSpace).exists_failed
    rw [readMoreTerms_of_error hs ht, readMoreTerms_of_error hs' ht']
    exact .failed unread unread'
  | case3 text sign body hs t after ht ih =>
    obtain ⟨body', hs', hbody⟩ := (hs ▸ sameStart_readSign? h.skipWhiteSpace).exists_found
    obtain ⟨after', ht', hafter⟩ :=
      (ht ▸ sameReading_readTerm hbody.skipWhiteSpace).exists_read
    rw [readMoreTerms_of_ok hs ht, readMoreTerms_of_ok hs' ht']
    exact (ih hafter).map (t.signed sign :: ·)

theorem sameReading_readExpression :
    SameReading (readExpression text) (readExpression text') := by
  refine SameReading.map ?_ Expression.sum
  have hterm := sameReading_readTerm h.skipWhiteSpace
  rw [readTerms, readTerms]
  cases ht : readTerm (skipWhiteSpace text) with
  | error unread =>
    obtain ⟨unread', ht'⟩ := (ht ▸ hterm).exists_failed
    rw [ht']
    exact .failed unread unread'
  | ok r =>
    obtain ⟨after', ht', hafter⟩ := (ht ▸ hterm).exists_read
    rw [ht']
    exact (sameReading_readMoreTerms hafter).map (r.1 :: ·)

theorem sameStart_readRelation? : SameStart (readRelation? text) (readRelation? text') := by
  obtain ⟨after, rfl⟩ := h
  cases hread : readRelation? text with
  | none =>
    have hends := (readRelation?_eq_none_iff.1 hread).append
      (after.ends fun _ => not_startsRelation_of_isWhiteSpace)
    rw [readRelation?_eq_none_iff.2 hends]
    exact .absent
  | some r =>
    obtain ⟨s, rfl, hs, hlongest⟩ := readRelation?_eq_some_iff.1 hread
    have hlongest' : s.IsLongest (r.2 ++ after.chars) := by
      rw [RelationSign.isLongest_iff] at hlongest ⊢
      exact fun hs => (hlongest hs).append
        (after.ends fun _ hc => beq_eq_false_of_isWhiteSpace hc (by decide))
    rw [readRelation?_eq_some_iff.2 ⟨s, (List.append_assoc _ _ _).symm, hs, hlongest'⟩]
    exact .found r.1 ⟨after, rfl⟩

theorem sameStart_readDirection? : SameStart (readDirection? text) (readDirection? text') := by
  by_cases hkeyword : ∃ d : Direction, d.keyword <+: text
  · obtain ⟨after, rfl⟩ := h
    obtain ⟨d, body, rfl⟩ := hkeyword
    have hends : endsKeyword (body ++ after.chars) = endsKeyword body := by
      cases body with
      | nil => exact endsKeyword_iff.2 fun c hc => after.all_white c (List.mem_of_mem_head? hc)
      | cons c body => rfl
    rw [List.append_assoc, readDirection?_keyword, readDirection?_keyword, hends]
    split
    · exact .found d ⟨after, rfl⟩
    · exact .absent
  · have hnone : ∀ {text : List Char}, (¬ ∃ d : Direction, d.keyword <+: text) →
        readDirection? text = none := by
      intro text hkeyword
      refine Option.eq_none_iff_forall_ne_some.2 fun r hr => hkeyword ⟨r.1, r.2, ?_⟩
      exact (readDirection?_eq_some_iff.1 hr).1
    have hkeyword' : ¬ ∃ d : Direction, d.keyword <+: text' := by
      rintro ⟨d, hd⟩
      exact hkeyword ⟨d, (h.prefix_iff d.not_isWhiteSpace_of_mem_keyword).1 hd⟩
    rw [hnone hkeyword, hnone hkeyword']
    exact .absent

end Readers

end LinProg
