import Mathlib
import LinProg.Model.Basic
import LinProg.Proofs.Binary64.Nearest
import LinProg.Proofs.Expression.Sum
import LinProg.Proofs.Model.Layout

set_option autoImplicit false

/-! # The meaning of a linear program

A finite number is a rational, and under an assignment of rationals to the variables an expression
has a value and a restriction holds or not. A program is read through its sparse expressions
(`Problem.Feasible`), its model through the dense rows and a list of values, one per column
(`Model.Feasible`). The two agree: a row adds up to what its expression adds up to, because every
variable of the expression has exactly one column (`dot_coeff`).

An infinity and no number have the value zero here, so that values are defined for every program;
the statements are about programs whose numbers are finite. -/

namespace LinProg

/-! ## Values -/

abbrev Assignment := String → ℚ

/-- The sum of the terms under an assignment. -/
def Expression.value (e : Expression) (v : Assignment) : ℚ :=
  (e.terms.map fun t => t.coefficient.toRat * v t.name).sum

/-- The dot product of coefficients and values. -/
def dot (coefficients : List Binary64) (values : List ℚ) : ℚ :=
  (List.zipWith (fun c x => c.toRat * x) coefficients values).sum

/-! ## Truth -/

def Relation.Holds : Relation → ℚ → ℚ → Prop
  | .atMost, a, b => a ≤ b
  | .equal, a, b => a = b
  | .atLeast, a, b => a ≥ b

def Restriction.Holds (r : Restriction) (v : Assignment) : Prop :=
  r.relation.Holds (r.expression.value v) r.bound.toRat

def SignRestriction.Holds (s : SignRestriction) (v : Assignment) : Prop :=
  v s.name ≥ 0

/-- Whether an assignment satisfies all that a program states. -/
def Problem.Feasible (p : Problem) (v : Assignment) : Prop :=
  (∀ r ∈ p.restrictions, r.Holds v) ∧ ∀ s ∈ p.signRestrictions, s.Holds v

def Row.Holds (row : Row) (values : List ℚ) : Prop :=
  row.relation.Holds (dot row.coefficients values) row.bound.toRat

/-- Whether values for the columns satisfy all rows and are not negative where they may not be. -/
def Model.Feasible (m : Model) (values : List ℚ) : Prop :=
  (∀ row ∈ m.rows, row.Holds values) ∧
    ∀ (j : Nat) (x : ℚ), m.nonnegative[j]? = some true → values[j]? = some x → x ≥ 0

/-! ## Sparse and dense sums -/

namespace Expression

variable {e : Expression} {names : List String}

/-- The value as a sum over names. -/
theorem value_eq_sum_names (e : Expression) (v : Assignment) :
    e.value v = (e.names.map fun name => (e.coeff name).toRat * v name).sum := by
  rw [value, ← map_name_terms, List.map_map]
  congr 1
  apply List.map_congr_left
  intro t ht
  simp only [Function.comp_apply, coeff_of_mem_terms ht]

/-- A row over names among which are all those of an expression adds up to the expression. -/
theorem dot_coeff (hnodup : names.Nodup) (hnames : ∀ name ∈ e.names, name ∈ names)
    (v : Assignment) : dot (names.map e.coeff) (names.map v) = e.value v := by
  have hdense : dot (names.map e.coeff) (names.map v) =
      (names.map fun name => (e.coeff name).toRat * v name).sum := by
    rw [dot, List.zipWith_map, List.zipWith_self]
  rw [hdense, value_eq_sum_names, ← List.sum_toFinset _ hnodup,
    ← List.sum_toFinset _ e.nodup_names]
  symm
  -- The names of the other columns contribute zero.
  apply Finset.sum_subset
  · intro name h
    exact List.mem_toFinset.2 (hnames name (List.mem_toFinset.1 h))
  · intro name _ h
    rw [List.mem_toFinset] at h
    rw [coeff_of_not_mem_names h, Binary64.toRat_zero, zero_mul]

/-- Only the variables that occur matter for the value. -/
theorem value_congr {v w : Assignment} (h : ∀ name ∈ e.names, w name = v name) :
    e.value w = e.value v := by
  rw [value_eq_sum_names, value_eq_sum_names]
  congr 1
  apply List.map_congr_left
  intro name hname
  rw [h name hname]

end Expression

/-! ## Assembled programs -/

namespace Problem

variable (p : Problem) (v : Assignment)

/-- The value of a column is that of its variable. -/
theorem dot_costs_assemble :
    dot p.assemble.costs (p.assemble.names.map v) = p.objective.value v := by
  rw [names_assemble, costs_assemble]
  refine Expression.dot_coeff p.nodup_names ?_ v
  intro name hname
  exact mem_names.2 (Or.inl hname)

theorem dot_row {r : Restriction} (hr : r ∈ p.restrictions) :
    dot (r.row p.names).coefficients (p.names.map v) = r.expression.value v := by
  refine Expression.dot_coeff p.nodup_names ?_ v
  intro name hname
  exact mem_names.2 (Or.inr (Or.inl ⟨r, hr, hname⟩))

theorem map_dot_matrix_assemble :
    p.assemble.matrix.map (fun row => dot row (p.assemble.names.map v)) =
      p.restrictions.map fun r => r.expression.value v := by
  rw [names_assemble, matrix_assemble, List.map_map]
  apply List.map_congr_left
  intro r hr
  exact p.dot_row v hr

theorem row_holds_iff {r : Restriction} (hr : r ∈ p.restrictions) :
    (r.row p.names).Holds (p.names.map v) ↔ r.Holds v := by
  rw [Row.Holds, Restriction.Holds, p.dot_row v hr]
  rfl

theorem getElem?_nonnegative_assemble {j : Nat} :
    p.assemble.nonnegative[j]? = p.names[j]?.map p.restrictsSign := by
  rw [nonnegative_assemble, List.getElem?_map]

/-- The marked columns are those of the sign restrictions. -/
theorem nonnegative_holds_iff :
    (∀ (j : Nat) (x : ℚ), p.assemble.nonnegative[j]? = some true →
      (p.names.map v)[j]? = some x → x ≥ 0) ↔ ∀ s ∈ p.signRestrictions, s.Holds v := by
  constructor
  · intro h s hs
    -- The variable of a sign restriction has a column, so the mark can be used there.
    have hname : s.name ∈ p.names := mem_names.2 (Or.inr (Or.inr ⟨s, hs, rfl⟩))
    obtain ⟨j, hj⟩ := List.mem_iff_getElem?.1 hname
    refine h j (v s.name) ?_ ?_
    · rw [getElem?_nonnegative_assemble, hj, Option.map_some,
        p.restrictsSign_eq_true_iff.2 hs]
    · rw [List.getElem?_map, hj, Option.map_some]
  · intro h j x hmark hx
    rw [getElem?_nonnegative_assemble, Option.map_eq_some_iff] at hmark
    obtain ⟨name, hj, hrestricted⟩ := hmark
    rw [List.getElem?_map, hj, Option.map_some, Option.some.injEq] at hx
    rw [← hx]
    exact h ⟨name⟩ (p.restrictsSign_eq_true_iff.1 hrestricted)

theorem feasible_assemble_iff :
    p.Feasible v ↔ p.assemble.Feasible (p.assemble.names.map v) := by
  rw [Problem.Feasible, Model.Feasible, names_assemble, p.nonnegative_holds_iff v]
  refine and_congr_left fun _ => ?_
  rw [assemble, List.forall_mem_map]
  exact forall₂_congr fun r hr => (p.row_holds_iff v hr).symm

end Problem

/-- **Assembly preserves the meaning of a linear program.** Under every assignment the model's
    objective and rows add up to the objective and the restrictions of the program, and the values
    of the columns satisfy the model exactly if the assignment satisfies the program. The values of
    names without a column do not matter. -/
theorem Problem.assemble_preserves_meaning (p : Problem) (v : Assignment) :
    dot p.assemble.costs (p.assemble.names.map v) = p.objective.value v ∧
      p.assemble.matrix.map (fun row => dot row (p.assemble.names.map v)) =
        p.restrictions.map (fun r => r.expression.value v) ∧
      (p.Feasible v ↔ p.assemble.Feasible (p.assemble.names.map v)) ∧
      ∀ w : Assignment, (∀ name ∈ p.assemble.names, w name = v name) →
        p.objective.value w = p.objective.value v ∧
          (∀ r ∈ p.restrictions, r.expression.value w = r.expression.value v) ∧
          (p.Feasible w ↔ p.Feasible v) := by
  refine ⟨p.dot_costs_assemble v, p.map_dot_matrix_assemble v, p.feasible_assemble_iff v, ?_⟩
  intro w h
  have hvalues : p.assemble.names.map w = p.assemble.names.map v := List.map_congr_left h
  rw [names_assemble] at h
  refine ⟨?_, ?_, ?_⟩
  · rw [← p.dot_costs_assemble v, ← p.dot_costs_assemble w, hvalues]
  · intro r hr
    apply Expression.value_congr
    intro name hname
    exact h name (mem_names.2 (Or.inr (Or.inl ⟨r, hr, hname⟩)))
  · rw [p.feasible_assemble_iff v, p.feasible_assemble_iff w, hvalues]

end LinProg
