import LinProg.Binary64.Basic

set_option autoImplicit false

/-! # JSON values

The values that a JSON text can hold: integers and binary64 numbers are told apart, since they are
written differently, and the members of an object keep their order. -/

namespace LinProg

inductive Json where
  | null
  | boolean (value : Bool)
  | integer (value : Int)
  | real (value : Binary64)
  | string (value : String)
  | array (elements : List Json)
  | object (members : List (String × Json))

namespace Json

/-- The value for a number. JSON has none for infinities and for what is not a number. -/
def ofBinary64 (x : Binary64) : Json :=
  if x.isFinite then .real x else .null

def ofBinary64s (xs : List Binary64) : Json :=
  .array (xs.map ofBinary64)

end Json

end LinProg
