import Mathlib.Tactic.SplitIfs
import LinProg.Proofs.Text.Lines

set_option autoImplicit false

/-! # The order of texts

Texts are ordered by the codes of their characters, from the first character on. That is also the
order of their bytes in UTF-8: of two characters the one with the smaller code has the smaller
bytes, whatever follows them (`utf8EncodeChar_append_lt`). -/

namespace LinProg.Text

/-- The bytes of two characters differ, and at the first place where they do those of the smaller
    character are smaller. -/
theorem utf8EncodeChar_append_lt {c d : Char} (h : c < d) (s t : List UInt8) :
    String.utf8EncodeChar c ++ s < String.utf8EncodeChar d ++ t := by
  have hlt : c.val.toNat < d.val.toNat := h
  have hvalid : d.val.toNat < 0x110000 := by
    rcases d.valid with hd | hd <;> omega
  unfold String.utf8EncodeChar
  dsimp only
  generalize c.val.toNat = v at hlt
  generalize d.val.toNat = w at hlt hvalid
  clear h
  -- More bytes start with a larger first one, and among as many the digits to base 64 decide.
  split_ifs
  all_goals
    simp only [List.cons_append, List.nil_append, List.cons_lt_cons_iff, UInt8.lt_iff_toNat_lt,
      ← UInt8.toNat_inj, UInt8.toNat_ofNat']
    simp (disch := omega) only [Nat.mod_eq_of_lt]
    omega

/-- A smaller text has smaller bytes. -/
theorem encode_lt_encode {a b : List Char} (h : a < b) : encode a < encode b := by
  induction h with
  | @nil c text =>
    cases hbytes : encode (c :: text) with
    | nil => simp [encode] at hbytes
    | cons b bytes => exact .nil
  | @rel c a d b hlt => exact utf8EncodeChar_append_lt hlt (encode a) (encode b)
  | @cons c a b _ ih => exact List.append_left_lt ih

/-- The order of strings is that of their bytes. -/
theorem encode_toList_lt {s t : String} (h : s < t) : encode s.toList < encode t.toList :=
  encode_lt_encode h

end LinProg.Text
