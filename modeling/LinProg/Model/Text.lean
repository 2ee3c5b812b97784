import LinProg.Model.Basic

set_option autoImplicit false

/-! # Models as text

A model is shown as a linear program again: what is minimized, the rows with their bounds, and what
is known about the sign of each variable. Coefficients that compare equal to zero are left out, and
a row without others is shown as `0`. -/

namespace LinProg

namespace Model

/-- A coefficient with its variable, followed by a space: the sign, the magnitude and the name. -/
def entryText (name : String) (coefficient : Binary64) : String :=
  (if coefficient.isPositive then "+ " else "- ") ++ coefficient.abs.text ++ " " ++ name ++ " "

/-- The coefficients of a row that do not compare equal to zero, with their variables. -/
def entries (names : List String) (coefficients : List Binary64) : List (String × Binary64) :=
  (names.zip coefficients).filter fun entry => !entry.2.isZero

/-- A row of coefficients, each with its variable and followed by a space. -/
def rowText (names : List String) (coefficients : List Binary64) : String :=
  if (entries names coefficients).isEmpty then "0 "
  else String.join ((entries names coefficients).map fun entry => entryText entry.1 entry.2)

def rowLine (names : List String) (row : Row) : String :=
  rowText names row.coefficients ++ row.relation.symbol ++ " " ++ row.bound.text ++ "\n"

/-- A line for what is known about the sign of a variable. -/
def columnLine (column : Column) : String :=
  column.name ++ (if column.nonnegative then " ≥ 0\n" else " free\n")

def text (m : Model) : String :=
  "minimize\n" ++ rowText m.names m.costs ++ "\n\nsubject to\n" ++
    String.join (m.rows.map (rowLine m.names)) ++ "\nwith the bounds\n" ++
    String.join (m.columns.map columnLine)

end Model

end LinProg
