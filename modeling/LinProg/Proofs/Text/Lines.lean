import LinProg.Text.Line

set_option autoImplicit false

/-! # Lines of a text

A text that is written line by line is cut into the same lines. In UTF-8 no byte below `0x80` comes
from another character than the one of that code (`toNat_of_mem_utf8EncodeChar`), so that the bytes
of a line hold a line feed or end in a carriage return only if the line does. -/

namespace LinProg.Text

/-! ## Bytes of a text -/

def encode (text : List Char) : List UInt8 :=
  text.flatMap String.utf8EncodeChar

theorem encode_append (text more : List Char) :
    encode (text ++ more) = encode text ++ encode more :=
  List.flatMap_append

@[simp] theorem encode_lineFeed : encode ['\n'] = [lineFeed] := by
  decide

theorem toList_loop_eq (bytes : ByteArray) (i : Nat) (read : List UInt8) :
    ByteArray.toList.loop bytes i read = read.reverse ++ bytes.data.toList.drop i := by
  fun_induction ByteArray.toList.loop bytes i read with
  | case1 i read hlt ih =>
    have hi : i < bytes.data.toList.length := hlt
    have hget : bytes.get! i = bytes.data.toList[i] := getElem!_pos bytes.data i hlt
    rw [ih, hget, List.reverse_cons, List.append_assoc, List.singleton_append,
      ← List.drop_eq_getElem_cons]
  | case2 i read hge =>
    rw [List.drop_eq_nil_of_le (Nat.not_lt.1 hge), List.append_nil]

theorem toList_data_toByteArray (text : String) :
    text.toByteArray.data.toList = encode text.toList := by
  rw [← String.ofList_toList (s := text), String.toByteArray_ofList, List.utf8Encode,
    List.toList_data_toByteArray, String.toList_ofList]
  rfl

/-- The bytes of a string are those of its characters. -/
theorem toList_toByteArray (text : String) : text.toByteArray.toList = encode text.toList := by
  rw [ByteArray.toList, toList_loop_eq, List.reverse_nil, List.nil_append, List.drop_zero,
    toList_data_toByteArray]

/-- Bytes are decoded to the text whose bytes they are. -/
theorem fromUTF8?_eq_some_iff {bytes : List UInt8} {text : String} :
    String.fromUTF8? ⟨bytes.toArray⟩ = some text ↔ encode text.toList = bytes := by
  have hbytes : text.toByteArray = ⟨bytes.toArray⟩ ↔ encode text.toList = bytes := by
    rw [← toList_data_toByteArray]
    constructor
    · intro h
      rw [h]
    · rintro rfl
      rfl
  rw [← hbytes, String.fromUTF8?]
  constructor
  · intro h
    split at h
    · cases h
      rfl
    · cases h
  · intro h
    rw [← h, dif_pos text.isValidUTF8]
    rfl

/-- A byte below `0x80` is the code of its character. -/
theorem toNat_of_mem_utf8EncodeChar {b : UInt8} {c : Char} (h : b ∈ String.utf8EncodeChar c)
    (hb : b.toNat < 0x80) : c.toNat = b.toNat := by
  have hval : c.val.toNat = c.toNat := rfl
  unfold String.utf8EncodeChar at h
  simp only [hval] at h
  split at h
  · simp only [List.mem_singleton] at h
    subst h
    rw [UInt8.toNat_ofNat', Nat.mod_eq_of_lt (by omega)]
  · -- All bytes of a longer encoding have their highest bit set.
    exfalso
    split at h
    · simp only [List.mem_cons, List.not_mem_nil, or_false] at h
      rcases h with rfl | rfl <;> rw [UInt8.toNat_ofNat'] at hb <;> omega
    · split at h
      · simp only [List.mem_cons, List.not_mem_nil, or_false] at h
        rcases h with rfl | rfl | rfl <;> rw [UInt8.toNat_ofNat'] at hb <;> omega
      · simp only [List.mem_cons, List.not_mem_nil, or_false] at h
        rcases h with rfl | rfl | rfl | rfl <;> rw [UInt8.toNat_ofNat'] at hb <;> omega

/-- A byte below `0x80` in a text is there as a character. -/
theorem mem_of_mem_encode (c : Char) {b : UInt8} {text : List Char} (h : b ∈ encode text)
    (hb : b.toNat < 0x80) (hc : c.toNat = b.toNat) : c ∈ text := by
  obtain ⟨d, hd, hmem⟩ := List.mem_flatMap.1 h
  have heq : d = c := Char.toNat_inj.1 ((toNat_of_mem_utf8EncodeChar hmem hb).trans hc.symm)
  exact heq ▸ hd

/-! ## Lines -/

/-- Whether a text is taken as a line as it is: no line feed is in it, and no carriage return ends
    it. -/
structure IsLine (line : List Char) : Prop where
  no_lineFeed : '\n' ∉ line
  no_carriageReturn : line.getLast? ≠ some '\r'

/-- Lines with a line feed after each of them. -/
def joinLines (lines : List (List Char)) : List Char :=
  lines.flatMap fun line => line ++ ['\n']

theorem cutLines_append {line : List UInt8} (h : lineFeed ∉ line) (rest : List UInt8) :
    cutLines (line ++ lineFeed :: rest) = (line ++ [lineFeed]) :: cutLines rest := by
  induction line with
  | nil => simp [cutLines]
  | cons b line ih =>
    rw [List.mem_cons, not_or] at h
    rw [List.cons_append, cutLines, if_neg (Ne.symm h.1), ih h.2]
    rfl

/-- A line feed is in the bytes of a text only if it is in the text. -/
theorem lineFeed_not_mem_encode {text : List Char} (h : '\n' ∉ text) : lineFeed ∉ encode text := by
  intro hmem
  exact h (mem_of_mem_encode '\n' hmem (by decide) rfl)

/-- Each line makes up one piece. -/
theorem cutLines_encode_joinLines {lines : List (List Char)} (h : ∀ line ∈ lines, IsLine line) :
    cutLines (encode (joinLines lines)) = lines.map fun line => encode line ++ [lineFeed] := by
  induction lines with
  | nil => rfl
  | cons line lines ih =>
    have hline : lineFeed ∉ encode line := lineFeed_not_mem_encode (h line (by simp)).no_lineFeed
    rw [joinLines, List.flatMap_cons, List.append_assoc, encode_append, encode_append,
      encode_lineFeed, List.singleton_append, cutLines_append hline, List.map_cons]
    exact congrArg _ (ih fun l hl => h l (List.mem_cons_of_mem _ hl))

theorem getLast?_encode_ne {line : List Char} (h : line.getLast? ≠ some '\r') :
    (encode line).getLast? ≠ some carriageReturn := by
  intro hlast
  rcases List.eq_nil_or_concat line with rfl | ⟨init, c, rfl⟩
  · simp [encode] at hlast
  · obtain ⟨b, hb⟩ : ∃ b, (encode [c]).getLast? = some b :=
      Option.ne_none_iff_exists'.1 (by simp [encode])
    rw [List.concat_eq_append, encode_append, List.getLast?_append, hb] at hlast
    have hmem : carriageReturn ∈ encode [c] := List.mem_of_getLast? (hb.trans hlast)
    have hc := mem_of_mem_encode '\r' hmem (by decide) rfl
    rw [List.mem_singleton] at hc
    simp [← hc] at h

theorem stripLineEnd_lineFeed {line : List UInt8} (h : line.getLast? ≠ some carriageReturn) :
    stripLineEnd (line ++ [lineFeed]) = line := by
  rw [stripLineEnd, if_pos List.getLast?_concat, List.dropLast_concat]
  exact if_neg h

theorem decodeLine?_eq_some_iff {piece : List UInt8} {line : String} :
    decodeLine? piece = some line ↔ encode line.toList = stripLineEnd piece :=
  fromUTF8?_eq_some_iff

theorem decodeLine?_encode {line : List Char} (h : line.getLast? ≠ some '\r') :
    decodeLine? (encode line ++ [lineFeed]) = some (String.ofList line) := by
  rw [decodeLine?_eq_some_iff, stripLineEnd_lineFeed (getLast?_encode_ne h), String.toList_ofList]

end LinProg.Text
