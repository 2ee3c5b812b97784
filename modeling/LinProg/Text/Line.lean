set_option autoImplicit false

/-! # Lines of a byte stream

A stream of bytes is cut after every line feed. The line of a piece is what is left without the line
feed and without one carriage return before it; only a last piece that no line feed ends keeps its
carriage return. Whether a line is text in UTF-8 is a matter of that line alone. -/

namespace LinProg.Text

def lineFeed : UInt8 := 0x0A

/-- The byte that may come before a line feed. -/
def carriageReturn : UInt8 := 0x0D

/-- Cut a stream after every line feed. No piece is empty. -/
def cutLines : List UInt8 → List (List UInt8)
  | [] => []
  | b :: bytes =>
    if b = lineFeed then [b] :: cutLines bytes
    else match cutLines bytes with
      | [] => [[b]]
      | piece :: pieces => (b :: piece) :: pieces

/-- The bytes of a piece without its line end. -/
def stripLineEnd (piece : List UInt8) : List UInt8 :=
  if piece.getLast? = some lineFeed then
    let body := piece.dropLast
    if body.getLast? = some carriageReturn then body.dropLast else body
  else piece

/-- The line of a piece, if it is text in UTF-8. -/
def decodeLine? (piece : List UInt8) : Option String :=
  String.fromUTF8? ⟨(stripLineEnd piece).toArray⟩

@[simp] theorem flatten_cutLines (bytes : List UInt8) : (cutLines bytes).flatten = bytes := by
  induction bytes with
  | nil => rfl
  | cons b bytes ih =>
    unfold cutLines
    split
    · simp [ih]
    · split
      · next h => simp [h] at ih; simp [← ih]
      · next h => simp [h] at ih; simp [← ih]

end LinProg.Text
