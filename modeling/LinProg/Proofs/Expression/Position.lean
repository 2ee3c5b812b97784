import LinProg.Proofs.Expression.Unique
import LinProg.Proofs.Text.Position
import LinProg.Statement.Position

set_option autoImplicit false

/-! # The expression at a position

The grammar as a user meets it: an expression is read from a byte position of a line, and the byte
position of its end, or of the place where a name is missing, is returned. -/

namespace LinProg

open Text Grammar

theorem expressionAt_eq_ok_iff (line : String) (pos : Nat) {e : Expression} {last : Nat} :
    expressionAt line pos = .ok (e, last) ↔
      ∃ s : Split, s.chars = textFrom line pos ∧ Expression.sum s.terms = e ∧
        StartsAt line last s.tail := by
  have htail : ∀ s : Split, s.chars = textFrom line pos → s.tail <:+ line.toList := by
    intro s hs
    exact (hs ▸ s.tail_suffix).trans (textFrom_suffix line pos)
  unfold expressionAt
  constructor
  · intro h
    split at h
    · next e' rest hread =>
      cases h
      obtain ⟨s, hs, hsum, rfl⟩ := readExpression_eq_ok_iff.1 hread
      exact ⟨s, hs, hsum, (startsAt_iff (htail s hs)).2 rfl⟩
    · cases h
  · rintro ⟨s, hs, rfl, hlast⟩
    obtain rfl := (startsAt_iff (htail s hs)).1 hlast
    rw [readExpression_eq_ok_iff.2 ⟨s, hs, rfl, rfl⟩]

/-- The text of a split is read as its sum, wherever it stands. -/
theorem Grammar.Split.exists_expressionAt_of_isTextAt {s : Split} {line : String} {pos : Nat}
    (h : IsTextAt line pos s.chars) :
    ∃ last, expressionAt line pos = .ok (.sum s.terms, last) := by
  have htext := textFrom_of_isTextAt h
  have hsuffix : s.tail <:+ line.toList :=
    s.tail_suffix.trans (htext ▸ textFrom_suffix line pos)
  exact ⟨_, (expressionAt_eq_ok_iff line pos).2 ⟨s, htext.symm, rfl, (startsAt_iff hsuffix).2 rfl⟩⟩

theorem expressionAt_eq_error_iff (line : String) (pos : Nat) {err : ParseError} :
    expressionAt line pos = .error err ↔
      ∃ k : Stuck, k.chars = textFrom line pos ∧
        ∃ offset, StartsAt line offset k.unread ∧ err = ⟨.invalidVariable, line, offset⟩ := by
  have hunread : ∀ k : Stuck, k.chars = textFrom line pos → k.unread <:+ line.toList := by
    intro k hk
    exact (hk ▸ k.unread_suffix).trans (textFrom_suffix line pos)
  unfold expressionAt
  constructor
  · intro h
    split at h
    · cases h
    · next unread hread =>
      cases h
      obtain ⟨k, hk, rfl⟩ := readExpression_eq_error_iff.1 hread
      exact ⟨k, hk, offsetOf line k.unread, (startsAt_iff (hunread k hk)).2 rfl, rfl⟩
  · rintro ⟨k, hk, offset, hoffset, rfl⟩
    obtain rfl := (startsAt_iff (hunread k hk)).1 hoffset
    rw [readExpression_eq_error_iff.2 ⟨k, hk, rfl⟩]
    rfl

/-- **Expressions are read by their grammar.** The text at a position is read as an expression
    exactly if it has a split, which is then the only one: the result is the sum of the split's
    terms, and it ends where the split's tail begins. Otherwise the text is stuck, and the error
    points at the place right after the longest coefficient of the first term without a name. -/
theorem expressionAt_grammar (line : String) (pos : Nat) :
    ∃ text, IsTextAt line pos text ∧
      (∀ e last, expressionAt line pos = .ok (e, last) ↔
        ∃ s : Split, s.chars = text ∧ Expression.sum s.terms = e ∧ StartsAt line last s.tail) ∧
      (∀ s s' : Split, s.chars = text → s'.chars = text → s = s') ∧
      (∀ err, expressionAt line pos = .error err ↔
        ∃ k : Stuck, k.chars = text ∧
          ∃ offset, StartsAt line offset k.unread ∧ err = ⟨.invalidVariable, line, offset⟩) := by
  refine ⟨textFrom line pos, isTextAt_textFrom line pos, ?_, ?_, ?_⟩
  · intro e last
    exact expressionAt_eq_ok_iff line pos
  · intro s s' hs hs'
    exact Split.chars_injective (hs.trans hs'.symm)
  · intro err
    exact expressionAt_eq_error_iff line pos

end LinProg
