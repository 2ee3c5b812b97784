set_option autoImplicit false

/-! # Byte positions in a line

Readers work on the unread text, a list of characters. Positions in a line are counted in bytes of
its UTF-8 form, and this module goes from one to the other: `textFrom line pos` is the text that
starts at a position, `offsetOf line rest` the position at which the text `rest` that ends the line
starts. A position past the end, or inside a character, has no text: reading there finds the end of
the line. -/

namespace LinProg.Text

def byteLength : List Char → Nat
  | [] => 0
  | c :: text => c.utf8Size + byteLength text

@[simp] theorem byteLength_nil : byteLength [] = 0 := rfl

@[simp] theorem byteLength_cons (c : Char) (text : List Char) :
    byteLength (c :: text) = c.utf8Size + byteLength text := rfl

@[simp] theorem byteLength_append (s t : List Char) :
    byteLength (s ++ t) = byteLength s + byteLength t := by
  induction s with
  | nil => simp
  | cons c s ih => simp [ih, Nat.add_assoc]

/-- The text after its first `n` bytes, empty when they do not end at a character boundary. -/
def dropBytes : Nat → List Char → List Char
  | 0, text => text
  | _ + 1, [] => []
  | n + 1, c :: text => if c.utf8Size ≤ n + 1 then dropBytes (n + 1 - c.utf8Size) text else []

@[simp] theorem dropBytes_zero (text : List Char) : dropBytes 0 text = text := by
  cases text <;> rfl

@[simp] theorem dropBytes_append (s t : List Char) : dropBytes (byteLength s) (s ++ t) = t := by
  induction s with
  | nil => simp
  | cons c s ih =>
    obtain ⟨n, hn⟩ : ∃ n, c.utf8Size + byteLength s = n + 1 :=
      ⟨c.utf8Size + byteLength s - 1, by have := c.utf8Size_pos; omega⟩
    have hle : c.utf8Size ≤ n + 1 := by omega
    have hsub : n + 1 - c.utf8Size = byteLength s := by omega
    simp [hn, dropBytes, hle, hsub, ih]

def textFrom (line : String) (pos : Nat) : List Char :=
  dropBytes pos line.toList

@[simp] theorem textFrom_zero (line : String) : textFrom line 0 = line.toList := by
  simp [textFrom]

/-- The byte position at which the text `rest`, with which the line ends, starts. -/
def offsetOf (line : String) (rest : List Char) : Nat :=
  byteLength line.toList - byteLength rest

/-- The offset of the text after a first part is the length of that part. -/
theorem offsetOf_eq {line : String} {s t : List Char} (h : line.toList = s ++ t) :
    offsetOf line t = byteLength s := by
  simp [offsetOf, h]

end LinProg.Text
