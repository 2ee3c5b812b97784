import LinProg.Json.Writer
import LinProg.Proofs.Json.Reader

set_option autoImplicit false

/-! # Strings in JSON texts

Whichever characters a string holds, its written form is read back as the string: a character that
has an escape is read through it, and every other one stands for itself. -/

namespace LinProg.Json

theorem hexDigit?_digitChar {d : Nat} (h : d < 16) : hexDigit? (Nat.digitChar d) = some d := by
  have hall : ∀ d, d < 16 → hexDigit? (Nat.digitChar d) = some d := by decide
  exact hall d h

/-- Two hexadecimal digits state every code below 256. -/
theorem readCodeUnits?_digitChars {n : Nat} (h : n < 256) (text : List Char) :
    readCodeUnits? ('0' :: '0' :: Nat.digitChar (n / 16) :: Nat.digitChar (n % 16) :: text) =
      some (.ofNat n, text) := by
  have hunit : readUnit? ('0' :: '0' :: Nat.digitChar (n / 16) :: Nat.digitChar (n % 16) :: text) =
      some (n, text) := by
    have hzero : hexDigit? '0' = some 0 := by decide
    simp only [readUnit?, hzero, hexDigit?_digitChar (by omega : n / 16 < 16),
      hexDigit?_digitChar (Nat.mod_lt n (by decide))]
    congr 2
    omega
  rw [readCodeUnits?, hunit]
  exact if_pos (Or.inl (by omega))

theorem readChar?_escaped {c d : Char} (hc : c ≠ 'u') (h : escapes.lookup c = some d)
    (text : List Char) : readChar? ('\\' :: c :: text) = some (d, text) := by
  rw [readChar?, if_pos rfl, readEscape?, if_neg hc, h, Option.map_some]

theorem readChar?_escape (c : Char) (text : List Char) :
    readChar? (escape c ++ text) = some (c, text) := by
  unfold escape
  -- Seven characters are escaped by a letter or a mark.
  iterate 7
    split
    · next heq =>
      subst heq
      exact readChar?_escaped (by decide) rfl text
  split
  · next hcontrol =>
    have hread := readCodeUnits?_digitChars (Nat.lt_trans hcontrol (by decide)) text
    rw [Char.ofNat_toNat] at hread
    simp only [List.cons_append, List.nil_append, readChar?, readEscape?, if_true]
    exact hread
  · next hquote hsolidus _ _ _ _ _ hcontrol =>
    rw [List.cons_append, List.nil_append, readChar?, if_neg hsolidus,
      if_neg (not_or_intro hcontrol hquote)]

theorem readChars?_of_readChar? {text rest : List Char} {c : Char}
    (h : readChar? text = some (c, rest)) :
    readChars? text = (readChars? rest).map fun (cs, rest) => (c :: cs, rest) := by
  rw [readChars?]
  split
  · next h' =>
    rw [h] at h'
    cases h'
    rfl
  · next h' =>
    rw [h] at h'
    cases h'

theorem readChars?_quote (text : List Char) : readChars? ('"' :: text) = some ([], text) := by
  have hnone : readChar? ('"' :: text) = none := by
    rw [readChar?, if_neg (by decide), if_pos (Or.inr rfl)]
  rw [readChars?]
  split
  · next h =>
    rw [hnone] at h
    cases h
  · rfl

theorem readChars?_flatMap_escape (cs text : List Char) :
    readChars? (cs.flatMap escape ++ '"' :: text) = some (cs, text) := by
  induction cs with
  | nil => exact readChars?_quote text
  | cons c cs ih =>
    rw [List.flatMap_cons, List.append_assoc, readChars?_of_readChar? (readChar?_escape c _), ih,
      Option.map_some]

theorem readScalar?_stringChars (s : String) (text : List Char) :
    readScalar? (stringChars s ++ text) = some (.string s, text) := by
  rw [stringChars, List.cons_append, List.cons_append, List.append_assoc, readScalar?,
    List.singleton_append, readChars?_flatMap_escape, Option.map_some]
  simp only [String.ofList_toList]

end LinProg.Json
