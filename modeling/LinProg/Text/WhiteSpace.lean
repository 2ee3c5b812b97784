set_option autoImplicit false

/-! # White space

The parts of a line are separated and surrounded by white space: the characters with the Unicode
property `White_Space`. The table is the whole property. `skipWhiteSpace` removes the longest run
at the start of a text, `trim` at both ends, and a text is blank when nothing else is in it. -/

namespace LinProg.Text

/-- The ranges of code points with the property `White_Space`, in increasing order. -/
def whiteSpaceRanges : List (Nat × Nat) :=
  [(0x09, 0x0D), (0x20, 0x20), (0x85, 0x85), (0xA0, 0xA0), (0x1680, 0x1680), (0x2000, 0x200A),
    (0x2028, 0x2029), (0x202F, 0x202F), (0x205F, 0x205F), (0x3000, 0x3000)]

def isWhiteSpace (c : Char) : Bool :=
  whiteSpaceRanges.any fun range => range.1 ≤ c.toNat && c.toNat ≤ range.2

/-- The text without the white space it starts with. -/
def skipWhiteSpace (text : List Char) : List Char :=
  text.dropWhile isWhiteSpace

def trim (text : List Char) : List Char :=
  (skipWhiteSpace (skipWhiteSpace text).reverse).reverse

/-- Whether a text holds white space only. The empty text is blank. -/
def isBlank (text : List Char) : Bool :=
  text.all isWhiteSpace

/-- What is skipped is a run of white space at the start. -/
theorem takeWhile_append_skipWhiteSpace (text : List Char) :
    text.takeWhile isWhiteSpace ++ skipWhiteSpace text = text :=
  List.takeWhile_append_dropWhile

theorem length_skipWhiteSpace_le (text : List Char) :
    (skipWhiteSpace text).length ≤ text.length :=
  (List.dropWhile_sublist isWhiteSpace).length_le

end LinProg.Text
