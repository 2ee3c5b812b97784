import Mathlib.Data.List.Sort
import Mathlib.Data.String.Basic
import LinProg.Model.Basic

set_option autoImplicit false

/-! # Where things are in an assembled model

The views of an assembled model, each as a list over the names of the program or over its
restrictions. The names are in an order that depends on nothing but which names there are
(`names_congr`). -/

namespace LinProg.Problem

variable (p : Problem)

theorem nodup_names : p.names.Nodup :=
  p.pairwise_names.imp fun h => ne_of_lt h

/-- The columns are a matter of which names there are. -/
theorem names_congr {p q : Problem} (h : ∀ name, name ∈ p.names ↔ name ∈ q.names) :
    p.names = q.names :=
  p.pairwise_names.eq_of_mem_iff q.pairwise_names h

/-- A column is marked for the variables that a sign restriction names. -/
theorem restrictsSign_eq_true_iff {name : String} :
    p.restrictsSign name = true ↔ ⟨name⟩ ∈ p.signRestrictions := by
  rw [restrictsSign, List.any_eq_true]
  constructor
  · rintro ⟨s, hs, hname⟩
    rw [← of_decide_eq_true hname]
    exact hs
  · intro h
    exact ⟨⟨name⟩, h, decide_eq_true rfl⟩

theorem costs_assemble : p.assemble.costs = p.names.map p.objective.coeff := by
  rw [Model.costs, assemble, List.map_map]
  rfl

theorem nonnegative_assemble : p.assemble.nonnegative = p.names.map p.restrictsSign := by
  rw [Model.nonnegative, assemble, List.map_map]
  rfl

theorem matrix_assemble :
    p.assemble.matrix = p.restrictions.map fun r => p.names.map r.expression.coeff := by
  rw [Model.matrix, assemble, List.map_map]
  rfl

theorem bounds_assemble : p.assemble.bounds = p.restrictions.map (·.bound) := by
  rw [Model.bounds, assemble, List.map_map]
  rfl

theorem relations_assemble : p.assemble.relations = p.restrictions.map (·.relation) := by
  rw [Model.relations, assemble, List.map_map]
  rfl

end LinProg.Problem
