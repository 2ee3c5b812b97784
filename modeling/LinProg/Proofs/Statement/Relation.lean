import LinProg.Proofs.Text.Run
import LinProg.Statement.Reader

set_option autoImplicit false

/-! # Relational signs

The five ways to write a relation, and the reader against them: it takes the longest sign that
starts the text (`readRelation?_eq_some_iff`) and fails on the texts that start with none of the
three characters of a sign (`readRelation?_eq_none_iff`). -/

namespace LinProg

open Text

namespace Grammar

/-- A relational sign. An inequality need not be followed by an equality sign. -/
inductive RelationSign where
  | lessOrEqual
  | less
  | greaterOrEqual
  | greater
  | equal
  deriving DecidableEq

namespace RelationSign

def chars : RelationSign → List Char
  | .lessOrEqual => ['<', '=']
  | .less => ['<']
  | .greaterOrEqual => ['>', '=']
  | .greater => ['>']
  | .equal => ['=']

def relation : RelationSign → Relation
  | .lessOrEqual => .atMost
  | .less => .atMost
  | .greaterOrEqual => .atLeast
  | .greater => .atLeast
  | .equal => .equal

/-- Whether no longer sign is there of which this one is only the start. -/
def IsLongest (s : RelationSign) (rest : List Char) : Prop :=
  ∀ s' : RelationSign, s'.chars <+: s.chars ++ rest → s'.chars.length ≤ s.chars.length

end RelationSign

def startsRelation (c : Char) : Bool :=
  c == '<' || c == '>' || c == '='

theorem RelationSign.length_chars_le (s : RelationSign) : s.chars.length ≤ 2 := by
  cases s <;> decide

/-- Only a lone inequality sign can go on, and it does so with an equality sign. -/
theorem RelationSign.isLongest_iff {s : RelationSign} {rest : List Char} :
    s.IsLongest rest ↔ (s = .less ∨ s = .greater → Ends (· == '=') rest) := by
  constructor
  · intro h hs
    cases rest with
    | nil => exact ends_nil
    | cons c rest =>
      rw [ends_cons, beq_eq_false_iff_ne]
      rintro rfl
      rcases hs with rfl | rfl
      · exact absurd (h .lessOrEqual ⟨rest, rfl⟩) (by decide)
      · exact absurd (h .greaterOrEqual ⟨rest, rfl⟩) (by decide)
  · intro h s' hprefix
    cases s with
    | lessOrEqual => exact s'.length_chars_le
    | greaterOrEqual => exact s'.length_chars_le
    | less =>
      have hends := h (.inl rfl)
      rcases rest with _ | ⟨c, rest⟩
      · exact hprefix.length_le
      · rw [ends_cons, beq_eq_false_iff_ne] at hends
        cases s' <;> simp [chars, List.cons_prefix_cons, hends.symm] at hprefix ⊢
    | greater =>
      have hends := h (.inr rfl)
      rcases rest with _ | ⟨c, rest⟩
      · exact hprefix.length_le
      · rw [ends_cons, beq_eq_false_iff_ne] at hends
        cases s' <;> simp [chars, List.cons_prefix_cons, hends.symm] at hprefix ⊢
    | equal => cases s' <;> simp_all [chars, List.cons_prefix_cons]

end Grammar

open Grammar

/-- A text that does not go on with a character does not start with it. -/
theorem ends_of_ne_cons {c : Char} {text : List Char} (h : ∀ rest, text = c :: rest → False) :
    Ends (· == c) text := by
  cases text with
  | nil => exact ends_nil
  | cons d text =>
    rw [ends_cons, beq_eq_false_iff_ne]
    rintro rfl
    exact h text rfl

/-- The longest relational sign is read. -/
theorem readRelation?_eq_some_iff {text rest : List Char} {r : Relation} :
    readRelation? text = some (r, rest) ↔
      ∃ s : RelationSign, s.chars ++ rest = text ∧ s.relation = r ∧ s.IsLongest rest := by
  constructor
  · intro h
    unfold readRelation? at h
    split at h
    · cases h
      exact ⟨.lessOrEqual, rfl, rfl, RelationSign.isLongest_iff.2 (by simp)⟩
    · next hnext =>
      cases h
      exact ⟨.less, rfl, rfl, RelationSign.isLongest_iff.2 fun _ => ends_of_ne_cons hnext⟩
    · cases h
      exact ⟨.greaterOrEqual, rfl, rfl, RelationSign.isLongest_iff.2 (by simp)⟩
    · next hnext =>
      cases h
      exact ⟨.greater, rfl, rfl, RelationSign.isLongest_iff.2 fun _ => ends_of_ne_cons hnext⟩
    · cases h
      exact ⟨.equal, rfl, rfl, RelationSign.isLongest_iff.2 (by simp)⟩
    · cases h
  · rintro ⟨s, rfl, rfl, hlongest⟩
    rw [RelationSign.isLongest_iff] at hlongest
    cases s with
    | lessOrEqual => rfl
    | greaterOrEqual => rfl
    | equal => rfl
    | less =>
      rcases rest with _ | ⟨c, rest⟩
      · rfl
      · have := hlongest (.inl rfl)
        simp_all [readRelation?, RelationSign.chars, RelationSign.relation]
    | greater =>
      rcases rest with _ | ⟨c, rest⟩
      · rfl
      · have := hlongest (.inr rfl)
        simp_all [readRelation?, RelationSign.chars, RelationSign.relation]

theorem readRelation?_eq_none_iff {text : List Char} :
    readRelation? text = none ↔ Ends startsRelation text := by
  constructor
  · intro h c hc
    obtain ⟨rest, rfl⟩ := List.head?_eq_some_iff.1 hc
    rw [Bool.eq_false_iff]
    intro hstarts
    simp only [startsRelation, Bool.or_eq_true, beq_iff_eq] at hstarts
    unfold readRelation? at h
    split at h <;> simp_all
  · intro h
    unfold readRelation?
    split <;> simp [startsRelation] at h ⊢

end LinProg
