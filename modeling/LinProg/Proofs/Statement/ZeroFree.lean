import LinProg.Statement.Reader

set_option autoImplicit false

/-! # No zeros in statements

Terms are added up so that a total that compares equal to zero is forgotten. So no expression that
is read holds a zero, whatever its terms are. -/

namespace LinProg

/-- Adding terms to an expression without zeros leaves none. -/
theorem Expression.zeroFree_foldl {e : Expression} (h : e.ZeroFree) (terms : List Term) :
    (terms.foldl accumulate e).ZeroFree := by
  induction terms generalizing e with
  | nil => exact h
  | cons t terms ih => exact ih (h.accumulate t)

theorem Expression.zeroFree_sum (terms : List Term) : (sum terms).ZeroFree :=
  zeroFree_foldl zeroFree_empty terms

theorem zeroFree_of_readExpression {text rest : List Char} {e : Expression}
    (h : readExpression text = .ok (e, rest)) : e.ZeroFree := by
  rw [readExpression] at h
  cases hterms : readTerms text with
  | error unread => simp [hterms, Except.map] at h
  | ok r =>
    rw [hterms] at h
    cases h
    exact Expression.zeroFree_sum r.1

theorem Direction.zeroFree_toMinimize {e : Expression} (h : e.ZeroFree) (d : Direction) :
    (d.toMinimize e).ZeroFree := by
  cases d with
  | maximize => exact h.negate
  | minimize => exact h

theorem zeroFree_of_readObjective {text rest : List Char} {e : Expression}
    (h : readObjective text = .ok (e, rest)) : e.ZeroFree := by
  rw [readObjective] at h
  split at h
  · cases h
  · next direction body _ =>
    split at h
    · cases h
    · next hread =>
      cases h
      exact direction.zeroFree_toMinimize (zeroFree_of_readExpression hread)

theorem zeroFree_of_readRestriction {text : List Char} {r : Restriction}
    (h : readRestriction text = .ok r) : r.expression.ZeroFree := by
  rw [readRestriction] at h
  split at h
  · cases h
  · next hread =>
    split at h
    · cases h
    · split at h
      · cases h
      · cases h
        exact zeroFree_of_readExpression hread

theorem mapError_eq_ok_iff {ε ε' α : Type} {f : ε → ε'} {x : Except ε α} {a : α} :
    x.mapError f = .ok a ↔ x = .ok a := by
  constructor
  · intro h
    cases x with
    | error e => cases h
    | ok b =>
      cases h
      rfl
  · rintro rfl
    rfl

/-- The objective that a line states holds no zero. -/
theorem zeroFree_of_parseObjective {line : String} {e : Expression} {dropped : List Char}
    (h : parseObjective line = .ok (e, dropped)) : e.ZeroFree :=
  zeroFree_of_readObjective (mapError_eq_ok_iff.1 h)

/-- The expression of a restriction that a line states holds no zero. -/
theorem zeroFree_of_parseRestriction {line : String} {r : Restriction}
    (h : parseRestriction line = .ok r) : r.expression.ZeroFree :=
  zeroFree_of_readRestriction (mapError_eq_ok_iff.1 h)

/-- Whether no expression of a problem holds a zero. -/
structure Problem.ZeroFree (p : Problem) : Prop where
  objective : p.objective.ZeroFree
  restrictions : ∀ r ∈ p.restrictions, r.expression.ZeroFree

end LinProg
