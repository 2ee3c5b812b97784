import LinProg.Json.Writer
import LinProg.Model.Basic

set_option autoImplicit false

/-! # Models as records

The form in which a model is handed on: a JSON object with the names of the columns, the matrix by
rows, the right sides `vectorM`, the coefficients of the objective `vectorN`, the codes of the
relations, and for each column `1` if its variable may not be negative and `0` otherwise. -/

namespace LinProg

namespace Model

def flag (b : Bool) : Int :=
  if b then 1 else 0

def toJson (m : Model) : Json :=
  .object [
    ("variables", .array (m.names.map .string)),
    ("matrix", .array (m.matrix.map .ofBinary64s)),
    ("vectorM", .ofBinary64s m.bounds),
    ("vectorN", .ofBinary64s m.costs),
    ("vectorSign", .array (m.relations.map fun r => .integer r.code)),
    ("binaryVectorN", .array (m.nonnegative.map fun b => .integer (flag b)))]

def json (m : Model) : String :=
  m.toJson.indented

end Model

end LinProg
