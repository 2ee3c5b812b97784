import Std.Data.ExtTreeSet
import LinProg.Problem

set_option autoImplicit false

/-! # Dense models

The model of a linear program is its numbers laid out densely: a column for every variable, in the
order of the names, and a row for every restriction, in the order of the restrictions, with one
coefficient per column. `Problem.assemble` lays a program out. A variable that a statement does not
mention has the coefficient `+0` in its row. -/

namespace LinProg

/-- What a model knows about a variable. -/
structure Column where
  name : String
  cost : Binary64
  nonnegative : Bool
  deriving DecidableEq

structure Row where
  coefficients : List Binary64
  relation : Relation
  bound : Binary64
  deriving DecidableEq

/-- The dense form of a linear program. -/
structure Model where
  /-- The columns, in the order of the names. -/
  columns : List Column
  /-- The rows, in the order of the restrictions. -/
  rows : List Row
  deriving DecidableEq

namespace Model

def names (m : Model) : List String :=
  m.columns.map (·.name)

def costs (m : Model) : List Binary64 :=
  m.columns.map (·.cost)

/-- For each column whether its variable may not be negative. -/
def nonnegative (m : Model) : List Bool :=
  m.columns.map (·.nonnegative)

def matrix (m : Model) : List (List Binary64) :=
  m.rows.map (·.coefficients)

def bounds (m : Model) : List Binary64 :=
  m.rows.map (·.bound)

def relations (m : Model) : List Relation :=
  m.rows.map (·.relation)

end Model

/-- The row of a restriction over the variables with the given names. -/
def Restriction.row (r : Restriction) (names : List String) : Row :=
  ⟨names.map r.expression.coeff, r.relation, r.bound⟩

namespace Problem

def nameSet (p : Problem) : Std.ExtTreeSet String :=
  .ofList (p.objective.names ++ p.restrictions.flatMap (·.expression.names) ++
    p.signRestrictions.map (·.name))

/-- The names of a program's variables, in increasing order. -/
def names (p : Problem) : List String :=
  p.nameSet.toList

/-- Whether a sign restriction names the variable. -/
def restrictsSign (p : Problem) (name : String) : Bool :=
  p.signRestrictions.any (·.name = name)

def column (p : Problem) (name : String) : Column :=
  ⟨name, p.objective.coeff name, p.restrictsSign name⟩

def assemble (p : Problem) : Model where
  columns := p.names.map p.column
  rows := p.restrictions.map (·.row p.names)

/-- The names are those in any of the statements. -/
theorem mem_names {p : Problem} {name : String} :
    name ∈ p.names ↔
      name ∈ p.objective.names ∨ (∃ r ∈ p.restrictions, name ∈ r.expression.names) ∨
        ∃ s ∈ p.signRestrictions, s.name = name := by
  simp [names, nameSet]

/-- The names are in strictly increasing order, hence without repetitions. -/
theorem pairwise_names (p : Problem) : p.names.Pairwise (· < ·) := by
  have h := Std.ExtTreeSet.ordered_toList (t := p.nameSet)
  exact h.imp fun hab => compareOfLessAndEq_eq_lt.1 hab

@[simp] theorem names_assemble (p : Problem) : p.assemble.names = p.names := by
  simp [assemble, Model.names, column, Function.comp_def]

@[simp] theorem length_rows_assemble (p : Problem) :
    p.assemble.rows.length = p.restrictions.length := by
  simp [assemble]

/-- Every row has one coefficient per column. -/
theorem length_coefficients_assemble (p : Problem) :
    ∀ row ∈ p.assemble.rows, row.coefficients.length = p.assemble.columns.length := by
  intro row h
  obtain ⟨r, _, rfl⟩ := List.mem_map.1 h
  simp [assemble, Restriction.row]

end Problem

end LinProg
