import LinProg.Proofs.Model.Fields
import LinProg.Proofs.Model.Record
import LinProg.Proofs.Model.Text

set_option autoImplicit false

/-! # What a model lays out

`Model.LaysOut` says of every part of a model what stands there, for each index: the names are in
the order of their bytes and are those of the statements, and at the place of a restriction and a
variable stands the coefficient that the restriction has for the variable, or `+0`. A problem has
exactly one such model, the assembled one (`laysOut_assemble`, `Model.LaysOut.eq_assemble`). As the
places speak of the coefficients of the expressions alone, nothing else of an expression bears on
the model. -/

namespace LinProg

open Text

/-! ## Lists by index -/

/-- A list with one element for each of some keys, each of which is known. -/
theorem eq_map_of_getElem? {α β : Type} {keys : List α} {elements : List β} {f : α → β}
    (hlength : elements.length = keys.length)
    (h : ∀ (i : Nat) (a : α), keys[i]? = some a → elements[i]? = some (f a)) :
    elements = keys.map f := by
  apply List.ext_getElem?
  intro i
  rw [List.getElem?_map]
  cases hkey : keys[i]? with
  | none =>
    rw [List.getElem?_eq_none_iff] at hkey
    exact List.getElem?_eq_none (hlength ▸ hkey)
  | some a => exact h i a hkey

/-! ## The order of names -/

/-- Names in the order of their bytes are in the order of strings. -/
theorem lt_of_encode_lt {a b : String} (h : encode a.toList < encode b.toList) : a < b := by
  rcases lt_trichotomy a b with hlt | rfl | hgt
  · exact hlt
  · exact absurd h (List.lt_irrefl _)
  · exact absurd h (List.lt_asymm (encode_toList_lt hgt))

/-! ## Layout -/

def Problem.Mentions (p : Problem) (name : String) : Prop :=
  name ∈ p.objective.names ∨ (∃ r ∈ p.restrictions, name ∈ r.expression.names) ∨
    ⟨name⟩ ∈ p.signRestrictions

namespace Model

/-- Whether a model lays a problem out, part by part and index by index. -/
structure LaysOut (m : Model) (p : Problem) : Prop where
  /-- Each name has smaller bytes than the names after it. -/
  sorted : m.names.Pairwise fun a b => encode a.toList < encode b.toList
  mem_names : ∀ name, name ∈ m.names ↔ p.Mentions name
  length_matrix : m.matrix.length = p.restrictions.length
  length_row : ∀ row ∈ m.matrix, row.length = m.names.length
  length_bounds : m.bounds.length = p.restrictions.length
  length_relations : m.relations.length = p.restrictions.length
  length_costs : m.costs.length = m.names.length
  length_nonnegative : m.nonnegative.length = m.names.length
  entry : ∀ (i j : Nat) (r : Restriction) (name : String), p.restrictions[i]? = some r →
    m.names[j]? = some name →
      (m.matrix[i]?.bind fun row => row[j]?) = some ((r.expression.coeff? name).getD 0)
  bound : ∀ (i : Nat) (r : Restriction), p.restrictions[i]? = some r → m.bounds[i]? = some r.bound
  relation : ∀ (i : Nat) (r : Restriction), p.restrictions[i]? = some r →
    m.relations[i]? = some r.relation
  cost : ∀ (j : Nat) (name : String), m.names[j]? = some name →
    m.costs[j]? = some ((p.objective.coeff? name).getD 0)
  mark : ∀ (j : Nat) (name : String), m.names[j]? = some name →
    (m.nonnegative.map flag)[j]? = some (if ⟨name⟩ ∈ p.signRestrictions then 1 else 0)

theorem flag_injective : Function.Injective flag := by
  unfold Function.Injective
  decide

end Model

namespace Problem

variable (p : Problem)

theorem mem_names_iff_mentions {name : String} : name ∈ p.names ↔ p.Mentions name := by
  have hsign : (∃ s ∈ p.signRestrictions, s.name = name) ↔ ⟨name⟩ ∈ p.signRestrictions := by
    rw [← p.restrictsSign_eq_true_iff, restrictsSign, List.any_eq_true]
    simp only [decide_eq_true_eq]
  rw [mem_names, Mentions, hsign]

/-- The digit of a column says whether a sign restriction names its variable. -/
theorem flag_restrictsSign (name : String) :
    Model.flag (p.restrictsSign name) = if ⟨name⟩ ∈ p.signRestrictions then 1 else 0 := by
  by_cases h : (⟨name⟩ : SignRestriction) ∈ p.signRestrictions
  · rw [if_pos h, p.restrictsSign_eq_true_iff.2 h]
    rfl
  · rw [if_neg h, Bool.eq_false_iff.2 (mt p.restrictsSign_eq_true_iff.1 h)]
    rfl

theorem laysOut_assemble : p.assemble.LaysOut p where
  sorted := by
    rw [names_assemble]
    exact p.pairwise_names.imp encode_toList_lt
  mem_names name := by rw [names_assemble, p.mem_names_iff_mentions]
  length_matrix := by rw [matrix_assemble, List.length_map]
  length_row := by
    rw [matrix_assemble, names_assemble, List.forall_mem_map]
    intro r _
    exact List.length_map _
  length_bounds := by rw [bounds_assemble, List.length_map]
  length_relations := by rw [relations_assemble, List.length_map]
  length_costs := by rw [costs_assemble, names_assemble, List.length_map]
  length_nonnegative := by rw [nonnegative_assemble, names_assemble, List.length_map]
  entry i j r name hr hname := by
    rw [names_assemble] at hname
    rw [matrix_assemble, List.getElem?_map, hr, Option.map_some, Option.bind_some,
      List.getElem?_map, hname, Option.map_some, Expression.coeff]
  bound i r hr := by rw [bounds_assemble, List.getElem?_map, hr, Option.map_some]
  relation i r hr := by rw [relations_assemble, List.getElem?_map, hr, Option.map_some]
  cost j name hname := by
    rw [names_assemble] at hname
    rw [costs_assemble, List.getElem?_map, hname, Option.map_some, Expression.coeff]
  mark j name hname := by
    rw [names_assemble] at hname
    rw [nonnegative_assemble, List.map_map, List.getElem?_map, hname, Option.map_some,
      Function.comp_apply, flag_restrictsSign]

end Problem

/-- A model that lays a problem out is the assembled one: its names are in the same order, and at
    each place stands the same. -/
theorem Model.LaysOut.eq_assemble {m : Model} {p : Problem} (h : m.LaysOut p) :
    m = p.assemble := by
  have hnames : m.names = p.names := by
    refine (h.sorted.imp lt_of_encode_lt).eq_of_mem_iff p.pairwise_names ?_
    intro name
    rw [h.mem_names, p.mem_names_iff_mentions]
  have hmatrix : m.matrix = p.restrictions.map fun r => m.names.map r.expression.coeff := by
    refine eq_map_of_getElem? h.length_matrix fun i r hr => ?_
    have hi : i < m.matrix.length := by
      rw [h.length_matrix]
      exact (List.getElem?_eq_some_iff.1 hr).1
    have hrow : m.matrix[i]? = some m.matrix[i] := List.getElem?_eq_getElem hi
    rw [hrow, Option.some.injEq]
    refine eq_map_of_getElem? (h.length_row _ (List.getElem_mem hi)) fun j name hname => ?_
    have hentry := h.entry i j r name hr hname
    rwa [hrow, Option.bind_some] at hentry
  have hmarks : m.nonnegative.map flag = (m.names.map p.restrictsSign).map flag := by
    rw [List.map_map]
    refine eq_map_of_getElem? (by rw [List.length_map, h.length_nonnegative]) fun j name hname => ?_
    rw [Function.comp_apply, p.flag_restrictsSign]
    exact h.mark j name hname
  rw [hnames] at hmatrix hmarks
  apply ext_views
  · rw [hnames, Problem.names_assemble]
  · rw [Problem.costs_assemble, ← hnames]
    exact eq_map_of_getElem? h.length_costs h.cost
  · rw [Problem.nonnegative_assemble]
    exact List.map_injective_iff.2 flag_injective hmarks
  · rw [hmatrix, Problem.matrix_assemble]
  · rw [Problem.relations_assemble]
    exact eq_map_of_getElem? h.length_relations h.relation
  · rw [Problem.bounds_assemble]
    exact eq_map_of_getElem? h.length_bounds h.bound

/-- **The assembled model of a problem is the one that lays it out.** It comes out whole when it is
    filled place by place from statements that are read anywhere in their lines, so that all places
    are there and none of the positions bears on it, and it is shown whole when its fields are read
    place by place. -/
theorem Problem.laysOut_iff_eq_assemble (p : Problem) :
    (∀ m : Model, m.LaysOut p ↔ m = p.assemble) ∧
      (∀ placed : PlacedProblem, placed.problem = p →
        placed.fields? = some p.assemble.fields) ∧
      p.assemble.fields.text? = some p.assemble.text := by
  refine ⟨?_, ?_, p.assemble.text?_fields⟩
  · intro m
    constructor
    · exact Model.LaysOut.eq_assemble
    · rintro rfl
      exact p.laysOut_assemble
  · rintro placed rfl
    exact placed.fields?_eq

end LinProg
