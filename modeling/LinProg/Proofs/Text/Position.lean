import LinProg.Text.Position

set_option autoImplicit false

/-! # Positions and the texts at them

`StartsAt line pos text` says without any cutting that the line goes on with a text at a byte
position: so many bytes come before it. A position has at most one such text, which `textFrom`
finds, and a text that ends the line has exactly one position, which `offsetOf` computes. These are
positions of the string (`isValid_of_append`): they lie on boundaries of its characters. -/

namespace LinProg.Text

/-- The line goes on with a text at a byte position. -/
def StartsAt (line : String) (pos : Nat) (text : List Char) : Prop :=
  ∃ before, line.toList = before ++ text ∧ byteLength before = pos

/-- What is to be read at a position: the text with which the line goes on, or nothing if the
    position is past the end of the line or inside a character. -/
def IsTextAt (line : String) (pos : Nat) (text : List Char) : Prop :=
  StartsAt line pos text ∨ (text = [] ∧ ∀ other, ¬ StartsAt line pos other)

theorem textFrom_of_startsAt {line : String} {pos : Nat} {text : List Char}
    (h : StartsAt line pos text) : textFrom line pos = text := by
  obtain ⟨before, hline, rfl⟩ := h
  rw [textFrom, hline, dropBytes_append]

/-- Dropping bytes either removes a part of that length or leaves nothing. -/
theorem dropBytes_eq_nil_or (n : Nat) (text : List Char) :
    dropBytes n text = [] ∨
      ∃ before, text = before ++ dropBytes n text ∧ byteLength before = n := by
  induction n, text using dropBytes.induct with
  | case1 text => exact Or.inr ⟨[], by simp, rfl⟩
  | case2 n => exact Or.inl rfl
  | case3 n c text hle ih =>
    rw [dropBytes, if_pos hle]
    rcases ih with hnil | ⟨before, htext, hlength⟩
    · exact Or.inl hnil
    · refine Or.inr ⟨c :: before, by rw [List.cons_append, ← htext], ?_⟩
      rw [byteLength_cons, hlength]
      omega
  | case4 n c text hle => exact Or.inl (by rw [dropBytes, if_neg hle])

theorem textFrom_eq_nil_or (line : String) (pos : Nat) :
    textFrom line pos = [] ∨ StartsAt line pos (textFrom line pos) :=
  dropBytes_eq_nil_or pos line.toList

/-- Bytes that are dropped past a first part are dropped from the second part. -/
theorem dropBytes_add (s t : List Char) (n : Nat) :
    dropBytes (byteLength s + n) (s ++ t) = dropBytes n t := by
  induction s with
  | nil => simp
  | cons c s ih =>
    obtain ⟨m, hm⟩ : ∃ m, c.utf8Size + byteLength s + n = m + 1 :=
      ⟨c.utf8Size + byteLength s + n - 1, by have := c.utf8Size_pos; omega⟩
    have hle : c.utf8Size ≤ m + 1 := by omega
    have hsub : m + 1 - c.utf8Size = byteLength s + n := by omega
    rw [byteLength_cons, List.cons_append, hm, dropBytes, if_pos hle, hsub, ih]

theorem isTextAt_textFrom (line : String) (pos : Nat) : IsTextAt line pos (textFrom line pos) := by
  by_cases h : ∃ text, StartsAt line pos text
  · obtain ⟨text, htext⟩ := h
    exact Or.inl (textFrom_of_startsAt htext ▸ htext)
  · have hnone : ∀ text, ¬ StartsAt line pos text := by
      intro text htext
      exact h ⟨text, htext⟩
    exact Or.inr ⟨(textFrom_eq_nil_or line pos).resolve_right (hnone _), hnone⟩

/-- There is one text at a position. -/
theorem textFrom_of_isTextAt {line : String} {pos : Nat} {text : List Char}
    (h : IsTextAt line pos text) : textFrom line pos = text := by
  rcases h with hstarts | ⟨rfl, hnone⟩
  · exact textFrom_of_startsAt hstarts
  · exact (textFrom_eq_nil_or line pos).resolve_right (hnone _)

/-- What is left at a position ends the line. -/
theorem textFrom_suffix (line : String) (pos : Nat) : textFrom line pos <:+ line.toList := by
  rcases textFrom_eq_nil_or line pos with hnil | ⟨before, hline, -⟩
  · rw [hnil]
    exact List.nil_suffix
  · exact ⟨before, hline.symm⟩

/-- A text that ends the line starts where its offset says, and nowhere else. -/
theorem startsAt_iff {line : String} {text : List Char} (h : text <:+ line.toList) {pos : Nat} :
    StartsAt line pos text ↔ pos = offsetOf line text := by
  constructor
  · rintro ⟨before, hline, rfl⟩
    exact (offsetOf_eq hline).symm
  · rintro rfl
    obtain ⟨before, hline⟩ := h
    exact ⟨before, hline.symm, (offsetOf_eq hline.symm).symm⟩

/-- Where a text starts that ends the line, that text is to be read. -/
theorem textFrom_offsetOf {line : String} {text : List Char} (h : text <:+ line.toList) :
    textFrom line (offsetOf line text) = text :=
  textFrom_of_startsAt ((startsAt_iff h).2 rfl)

namespace StartsAt

variable {line : String} {pos : Nat} {text text' : List Char}

theorem unique (h : StartsAt line pos text) (h' : StartsAt line pos text') : text = text' :=
  (textFrom_of_startsAt h).symm.trans (textFrom_of_startsAt h')

theorem offsetOf_eq (h : StartsAt line pos text) : offsetOf line text = pos := by
  obtain ⟨before, hline, rfl⟩ := h
  exact Text.offsetOf_eq hline

/-- A second part starts after the first one. -/
theorem append (h : StartsAt line pos (text ++ text')) :
    StartsAt line (pos + byteLength text) text' := by
  obtain ⟨before, hline, rfl⟩ := h
  exact ⟨before ++ text, by rw [hline, List.append_assoc], byteLength_append before text⟩

end StartsAt

/-! ## Positions of a string -/

theorem utf8ByteSize_ofList (text : List Char) :
    (String.ofList text).utf8ByteSize = byteLength text := by
  induction text with
  | nil => rfl
  | cons c text ih =>
    rw [String.ofList_cons, String.utf8ByteSize_append, String.utf8ByteSize_singleton, ih,
      byteLength_cons]

theorem byteLength_toList (line : String) : byteLength line.toList = line.utf8ByteSize := by
  rw [← utf8ByteSize_ofList, String.ofList_toList]

/-- What comes before a text that ends the line has the length that its offset says. -/
theorem offsetOf_add_byteLength {line : String} {text : List Char} (h : text <:+ line.toList) :
    offsetOf line text + byteLength text = line.utf8ByteSize := by
  obtain ⟨before, hline⟩ := h
  rw [offsetOf_eq hline.symm, ← byteLength_append, hline, byteLength_toList]

/-- A place between two parts of a line is a position of the line. -/
theorem isValid_of_append {line : String} {before after : List Char}
    (h : line.toList = before ++ after) : String.Pos.Raw.IsValid line ⟨byteLength before⟩ := by
  refine String.Pos.Raw.isValid_iff_exists_append.2
    ⟨String.ofList before, String.ofList after, ?_, ?_⟩
  · rw [← String.ofList_append, ← h, String.ofList_toList]
  · rw [← utf8ByteSize_ofList]
    rfl

/-- The positions of a line are the places at which a text starts. -/
theorem isValid_iff_exists_startsAt {line : String} {pos : Nat} :
    String.Pos.Raw.IsValid line ⟨pos⟩ ↔ ∃ text, StartsAt line pos text := by
  constructor
  · intro h
    obtain ⟨before, after, rfl, hpos⟩ := String.Pos.Raw.isValid_iff_exists_append.1 h
    refine ⟨after.toList, before.toList, String.toList_append, ?_⟩
    rw [byteLength_toList]
    exact (congrArg String.Pos.Raw.byteIdx hpos).symm
  · rintro ⟨text, before, hline, rfl⟩
    exact isValid_of_append hline

end LinProg.Text
