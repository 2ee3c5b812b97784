import LinProg.Model.Text
import LinProg.Proofs.Model.Layout

set_option autoImplicit false

/-! # Models as arrays

The fields of a model apart, as a solver holds them: a matrix and vectors that share their indices.
Here they are filled place by place, over zeros, and shown place by place. Every read and write by
an index is checked, and where there is no such place there is no result. That the fields come out
(`fields?_eq`), and the text too (`text?_fields`), says that no index is ever out of range. -/

namespace LinProg

/-! ## Places -/

/-- Replace the element at an index, which must be there. -/
def put? {α : Type} (elements : List α) (i : Nat) (a : α) : Option (List α) :=
  if i < elements.length then some (elements.set i a) else none

/-- Replace the entry of a matrix in a row and a column, which must be there. -/
def putAt? (matrix : List (List Binary64)) (i j : Nat) (c : Binary64) :
    Option (List (List Binary64)) := do
  put? matrix i (← put? (← matrix[i]?) j c)

theorem put?_append {α : Type} (before after : List α) (old new : α) :
    put? (before ++ old :: after) before.length new = some (before ++ new :: after) := by
  simp [put?]

theorem putAt?_append (above below : List (List Binary64)) (left right : List Binary64)
    (old new : Binary64) :
    putAt? (above ++ (left ++ old :: right) :: below) above.length left.length new =
      some (above ++ (left ++ new :: right) :: below) := by
  have hrow : (above ++ (left ++ old :: right) :: below)[above.length]? =
      some (left ++ old :: right) := by
    simp
  rw [putAt?, hrow]
  show (put? (left ++ old :: right) left.length new).bind (put? _ above.length) = _
  rw [put?_append, Option.bind_some, put?_append]

/-! ## Fields -/

structure Model.Fields where
  names : List String
  matrix : List (List Binary64)
  bounds : List Binary64
  costs : List Binary64
  relations : List Relation
  nonnegative : List Bool

def Model.fields (m : Model) : Model.Fields :=
  ⟨m.names, m.matrix, m.bounds, m.costs, m.relations, m.nonnegative⟩

/-! ## Filling -/

/-- What the restrictions of a problem are filled into. -/
structure Filling where
  matrix : List (List Binary64)
  bounds : List Binary64
  relations : List Relation

def Filling.zeros (rows columns : Nat) : Filling :=
  ⟨.replicate rows (.replicate columns 0), .replicate rows 0, []⟩

/-- Write the coefficient of the variable of a column, if it has one, into its place in a row. -/
def Expression.fill? (e : Expression) (i : Nat) (matrix : List (List Binary64))
    (column : String × Nat) : Option (List (List Binary64)) :=
  match e.coeff? column.1 with
  | some c => putAt? matrix i column.2 c
  | none => some matrix

/-- Write a restriction into its row, one column after the other. -/
def Restriction.fill? (names : List String) (f : Filling) (row : Restriction × Nat) :
    Option Filling := do
  let matrix ← names.zipIdx.foldlM (row.1.expression.fill? row.2) f.matrix
  let bounds ← put? f.bounds row.2 row.1.bound
  some ⟨matrix, bounds, f.relations ++ [row.1.relation]⟩

/-- The statements of a problem as they are read: with each expression comes the byte position at
    which it ends. -/
structure PlacedProblem where
  objective : Expression × Nat
  restrictions : List (Restriction × Nat)
  signRestrictions : List SignRestriction

namespace PlacedProblem

/-- The problem that is stated, wherever the expressions end. -/
def problem (p : PlacedProblem) : Problem :=
  ⟨p.objective.1, p.restrictions.map (·.1), p.signRestrictions⟩

def fields? (p : PlacedProblem) : Option Model.Fields := do
  let names := p.problem.names
  let filled ← p.problem.restrictions.zipIdx.foldlM (Restriction.fill? names)
    (.zeros p.restrictions.length names.length)
  some ⟨names, filled.matrix, filled.bounds, names.map p.objective.1.coeff, filled.relations,
    names.map p.problem.restrictsSign⟩

end PlacedProblem

/-- A row of zeros is filled from a column on, all columns before it being done. -/
theorem Expression.foldlM_fill? (e : Expression) (names : List String)
    (above below : List (List Binary64)) (left : List Binary64) :
    (names.zipIdx left.length).foldlM (e.fill? above.length)
        (above ++ (left ++ .replicate names.length 0) :: below) =
      some (above ++ (left ++ names.map e.coeff) :: below) := by
  induction names generalizing left with
  | nil => rfl
  | cons name names ih =>
    have hentry : e.fill? above.length
        (above ++ (left ++ .replicate (names.length + 1) 0) :: below) (name, left.length) =
          some (above ++ (left ++ [e.coeff name] ++ .replicate names.length 0) :: below) := by
      rw [List.replicate_succ, fill?, coeff]
      cases e.coeff? name with
      | none => simp
      | some c =>
        refine (putAt?_append above below left _ 0 c).trans ?_
        simp
    have hrest := ih (left ++ [e.coeff name])
    rw [List.length_append, List.length_singleton] at hrest
    rw [List.length_cons, List.zipIdx_cons, List.foldlM_cons, hentry]
    refine hrest.trans ?_
    simp

/-- Zeros are filled from a row on, all rows before it being done. -/
theorem Restriction.foldlM_fill? (names : List String) (rs : List Restriction)
    (above : List (List Binary64)) (bounds : List Binary64) (relations : List Relation)
    (h : bounds.length = above.length) :
    (rs.zipIdx above.length).foldlM (fill? names)
        ⟨above ++ .replicate rs.length (.replicate names.length 0),
          bounds ++ .replicate rs.length 0, relations⟩ =
      some ⟨above ++ rs.map fun r => names.map r.expression.coeff, bounds ++ rs.map (·.bound),
        relations ++ rs.map (·.relation)⟩ := by
  induction rs generalizing above bounds relations with
  | nil => simp
  | cons r rs ih =>
    have hmatrix := r.expression.foldlM_fill? names above
      (.replicate rs.length (.replicate names.length 0)) []
    have hbound := put?_append bounds (.replicate rs.length 0) 0 r.bound
    rw [h] at hbound
    have hrow : fill? names
        ⟨above ++ .replicate (rs.length + 1) (.replicate names.length 0),
          bounds ++ .replicate (rs.length + 1) 0, relations⟩ (r, above.length) =
        some ⟨above ++ [names.map r.expression.coeff] ++
            .replicate rs.length (.replicate names.length 0),
          bounds ++ [r.bound] ++ .replicate rs.length 0, relations ++ [r.relation]⟩ := by
      rw [List.length_nil, List.nil_append, List.nil_append] at hmatrix
      simp only [fill?, List.replicate_succ, hmatrix, hbound, Option.bind_eq_bind,
        Option.bind_some, List.append_assoc, List.singleton_append]
    have hrest := ih (above ++ [names.map r.expression.coeff]) (bounds ++ [r.bound])
      (relations ++ [r.relation]) (by simp [h])
    rw [List.length_append, List.length_singleton] at hrest
    rw [List.length_cons, List.zipIdx_cons, List.foldlM_cons, hrow]
    refine hrest.trans ?_
    simp

/-- The fields that are filled place by place are those of the model. -/
theorem PlacedProblem.fields?_eq (p : PlacedProblem) :
    p.fields? = some p.problem.assemble.fields := by
  have hfill := Restriction.foldlM_fill? p.problem.names p.problem.restrictions [] [] [] rfl
  have hlength : p.restrictions.length = p.problem.restrictions.length := by
    simp [problem]
  simp only [List.length_nil, List.nil_append] at hfill
  simp only [fields?, hlength, Filling.zeros, hfill, Option.bind_eq_bind, Option.bind_some]
  rw [Model.fields, Problem.names_assemble, Problem.matrix_assemble, Problem.costs_assemble,
    Problem.nonnegative_assemble, Problem.bounds_assemble, Problem.relations_assemble]
  rfl

/-! ## Showing -/

namespace Model

/-- The line of a row, with its relation and its bound looked up by index. -/
def Fields.rowLine? (f : Fields) (row : List Binary64 × Nat) : Option String := do
  let relation ← f.relations[row.2]?
  let bound ← f.bounds[row.2]?
  some (Model.rowLine f.names ⟨row.1, relation, bound⟩)

def Fields.columnLine (name : String) (nonnegative : Bool) : String :=
  name ++ (if nonnegative then " ≥ 0\n" else " free\n")

/-- The text of a model, from its fields. -/
def Fields.text? (f : Fields) : Option String := do
  let lines ← f.matrix.zipIdx.mapM f.rowLine?
  some ("minimize\n" ++ rowText f.names f.costs ++ "\n\nsubject to\n" ++ String.join lines ++
    "\nwith the bounds\n" ++ String.join (List.zipWith Fields.columnLine f.names f.nonnegative))

/-- Rows that are looked up from an index on. -/
theorem mapM_rowLine? (f : Fields) (rows : List Row) (i : Nat)
    (h : ∀ j row, rows[j]? = some row →
      f.relations[i + j]? = some row.relation ∧ f.bounds[i + j]? = some row.bound) :
    ((rows.map (·.coefficients)).zipIdx i).mapM f.rowLine? =
      some (rows.map (rowLine f.names)) := by
  induction rows generalizing i with
  | nil => rfl
  | cons row rows ih =>
    obtain ⟨hrelation, hbound⟩ := h 0 row rfl
    have hline : f.rowLine? (row.coefficients, i) = some (rowLine f.names row) := by
      simp only [Fields.rowLine?, Nat.add_zero] at hrelation hbound ⊢
      rw [hrelation, hbound]
      rfl
    have hrest := ih (i + 1) fun j row hrow => by
      rw [Nat.add_assoc, Nat.add_comm 1 j]
      exact h (j + 1) row hrow
    rw [List.map_cons, List.zipIdx_cons, List.mapM_cons, hline, hrest]
    rfl

/-- The fields of a model show its text. -/
theorem text?_fields (m : Model) : m.fields.text? = some m.text := by
  have hrows := mapM_rowLine? m.fields m.rows 0 fun j row hrow => by
    rw [Nat.zero_add]
    simp [fields, relations, bounds, hrow]
  have hcolumns : List.zipWith Fields.columnLine m.names m.nonnegative =
      m.columns.map columnLine := by
    rw [names, nonnegative, List.zipWith_map, List.zipWith_self]
    rfl
  show ((m.rows.map (·.coefficients)).zipIdx.mapM m.fields.rowLine?).bind _ = _
  rw [hrows, Option.bind_some]
  show some (_ ++ String.join (List.zipWith Fields.columnLine m.names m.nonnegative)) = _
  rw [hcolumns]
  rfl

end Model

end LinProg
