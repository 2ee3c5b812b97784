import LinProg.Proofs.Expression.Sum
import LinProg.Proofs.Model.Layout

set_option autoImplicit false

/-! # Models and the order of statements

The columns of a model are in the order of the names, whatever the order of the statements is, so
that another order of the restrictions only gives the rows another order (`isRearranged_assemble`).
Further restrictions may bring new variables, whose columns come between the others. A coefficient
is therefore looked up by the name of its variable (`Model.coefficient?`), and so looked up it is
not affected (`enlarges_assemble`). -/

namespace LinProg

/-! ## Lists in another order -/

/-- Whether a list of places is an order of so many elements: it has every place once. -/
def IsOrder (order : List ℕ) (length : ℕ) : Prop :=
  order.Perm (List.range length)

/-- The elements of a list in another order, which has for each element the place where it was. -/
def rearrange {α : Type} (order : List ℕ) (elements : List α) : List α :=
  order.filterMap (elements[·]?)

section Rearrange

variable {α β : Type}

theorem rearrange_map (order : List ℕ) (f : α → β) (elements : List α) :
    rearrange order (elements.map f) = (rearrange order elements).map f := by
  rw [rearrange, rearrange, List.map_filterMap]
  simp only [List.getElem?_map]

/-- The places in their own order leave everything where it is. -/
theorem rearrange_range (elements : List α) :
    rearrange (List.range elements.length) elements = elements := by
  induction elements with
  | nil => rfl
  | cons a elements ih =>
    rw [List.length_cons, List.range_succ_eq_map, rearrange, List.filterMap_cons,
      List.filterMap_map]
    exact congrArg (a :: ·) ih

theorem IsOrder.perm_rearrange {order : List ℕ} {elements : List α}
    (h : IsOrder order elements.length) : (rearrange order elements).Perm elements := by
  have hperm := h.filterMap (elements[·]?)
  rwa [← rearrange, ← rearrange, rearrange_range] at hperm

end Rearrange

/-! ## Models in another order -/

/-- Whether a model is another one with its rows in a given order. -/
structure Model.IsRearranged (order : List ℕ) (m m' : Model) : Prop where
  /-- Every row has its place in the order, so that none is lost. -/
  isOrder : IsOrder order m.matrix.length
  length_bounds : m.bounds.length = m.matrix.length
  length_relations : m.relations.length = m.matrix.length
  names : m'.names = m.names
  costs : m'.costs = m.costs
  nonnegative : m'.nonnegative = m.nonnegative
  matrix : m'.matrix = rearrange order m.matrix
  bounds : m'.bounds = rearrange order m.bounds
  relations : m'.relations = rearrange order m.relations

namespace Problem

/-- Names that come along leave the others in their order. -/
theorem sublist_names {p q : Problem} (h : ∀ name, name ∈ p.names → name ∈ q.names) :
    p.names.Sublist q.names :=
  List.sublist_of_subperm_of_pairwise (List.subperm_of_subset p.nodup_names h) p.pairwise_names
    q.pairwise_names

variable (e : Expression) {rs : List Restriction} {ss ss' : List SignRestriction}

theorem names_rearrange {order : List ℕ} (h : IsOrder order rs.length)
    (hsigns : ∀ s, s ∈ ss' ↔ s ∈ ss) :
    names ⟨e, rearrange order rs, ss'⟩ = names ⟨e, rs, ss⟩ := by
  refine names_congr fun name => ?_
  rw [mem_names, mem_names]
  simp only [h.perm_rearrange.mem_iff, hsigns]

/-- Another order of the restrictions gives the rows that order, and the order and the repetitions
    of the sign restrictions do not matter. -/
theorem isRearranged_assemble {order : List ℕ} (h : IsOrder order rs.length)
    (hsigns : ∀ s, s ∈ ss' ↔ s ∈ ss) :
    Model.IsRearranged order (assemble ⟨e, rs, ss⟩) (assemble ⟨e, rearrange order rs, ss'⟩) := by
  have hnames := names_rearrange e h hsigns
  have hrestricts : restrictsSign ⟨e, rearrange order rs, ss'⟩ = restrictsSign ⟨e, rs, ss⟩ := by
    funext name
    rw [Bool.eq_iff_iff, restrictsSign_eq_true_iff, restrictsSign_eq_true_iff]
    exact hsigns ⟨name⟩
  constructor
  · rwa [matrix_assemble, List.length_map]
  · rw [bounds_assemble, matrix_assemble, List.length_map, List.length_map]
  · rw [relations_assemble, matrix_assemble, List.length_map, List.length_map]
  · rw [names_assemble, names_assemble, hnames]
  · rw [costs_assemble, costs_assemble, hnames]
  · rw [nonnegative_assemble, nonnegative_assemble, hnames, hrestricts]
  · rw [matrix_assemble, matrix_assemble, hnames, rearrange_map]
  · rw [bounds_assemble, bounds_assemble, rearrange_map]
  · rw [relations_assemble, relations_assemble, rearrange_map]

end Problem

/-! ## Coefficients by name -/

/-- The coefficient that a row of a model has for the variable of a name. -/
def Model.coefficient? (m : Model) (i : ℕ) (name : String) : Option Binary64 :=
  m.matrix[i]?.bind fun row => (m.names.zip row).lookup name

theorem lookup_zip_map {names : List String} {name : String} (h : name ∈ names)
    (f : String → Binary64) : (names.zip (names.map f)).lookup name = some (f name) := by
  induction names with
  | nil => cases h
  | cons first names ih =>
    rw [List.map_cons, List.zip_cons_cons, List.lookup_cons]
    by_cases hname : name = first
    · rw [hname, beq_self_eq_true]
    · rw [beq_eq_false_iff_ne.2 hname]
      exact ih ((List.mem_cons.1 h).resolve_left hname)

/-- Whether a model has the rows of another one first, over all of its variables and maybe some
    more. -/
structure Model.Enlarges (m m' : Model) : Prop where
  /-- The variables are still there, in the same order. -/
  names : m.names.Sublist m'.names
  bounds : m.bounds <+: m'.bounds
  relations : m.relations <+: m'.relations
  old : ∀ (i : ℕ) (name : String), i < m.rows.length → name ∈ m.names →
    ∃ c, m.coefficient? i name = some c ∧ m'.coefficient? i name = some c
  /-- A variable that came along does not occur in the rows that were there. -/
  new : ∀ (i : ℕ) (name : String), i < m.rows.length → name ∈ m'.names → name ∉ m.names →
    m'.coefficient? i name = some 0

namespace Problem

theorem coefficient?_assemble {p : Problem} {i : ℕ} {r : Restriction}
    (hr : p.restrictions[i]? = some r) {name : String} (hname : name ∈ p.names) :
    p.assemble.coefficient? i name = some (r.expression.coeff name) := by
  rw [Model.coefficient?, matrix_assemble, names_assemble, List.getElem?_map, hr, Option.map_some,
    Option.bind_some, lookup_zip_map hname]

/-- Further restrictions leave the rows before them as they are. -/
theorem enlarges_assemble (e : Expression) (rs more : List Restriction)
    (ss : List SignRestriction) :
    Model.Enlarges (assemble ⟨e, rs, ss⟩) (assemble ⟨e, rs ++ more, ss⟩) := by
  have hmem : ∀ name, name ∈ names ⟨e, rs, ss⟩ → name ∈ names ⟨e, rs ++ more, ss⟩ := by
    intro name hname
    rw [mem_names] at hname ⊢
    refine hname.imp_right (Or.imp_left ?_)
    rintro ⟨r, hr, hoccurs⟩
    exact ⟨r, List.mem_append_left _ hr, hoccurs⟩
  have hrow : ∀ i, i < (assemble ⟨e, rs, ss⟩).rows.length →
      ∃ r ∈ rs, rs[i]? = some r ∧ (rs ++ more)[i]? = some r := by
    intro i hi
    rw [length_rows_assemble] at hi
    exact ⟨rs[i], List.getElem_mem hi, List.getElem?_eq_getElem hi,
      (List.getElem?_append_left hi).trans (List.getElem?_eq_getElem hi)⟩
  constructor
  · rw [names_assemble, names_assemble]
    exact sublist_names hmem
  · rw [bounds_assemble, bounds_assemble]
    exact (List.prefix_append rs more).map _
  · rw [relations_assemble, relations_assemble]
    exact (List.prefix_append rs more).map _
  · intro i name hi hname
    rw [names_assemble] at hname
    obtain ⟨r, -, hr, hr'⟩ := hrow i hi
    exact ⟨r.expression.coeff name, coefficient?_assemble hr hname,
      coefficient?_assemble hr' (hmem name hname)⟩
  · intro i name hi hname hnew
    rw [names_assemble] at hname hnew
    obtain ⟨r, hmem_r, -, hr'⟩ := hrow i hi
    have hoccurs : name ∉ r.expression.names := by
      intro h
      exact hnew (mem_names.2 (.inr (.inl ⟨r, hmem_r, h⟩)))
    rw [coefficient?_assemble hr' hname, Expression.coeff_of_not_mem_names hoccurs]

end Problem

end LinProg
