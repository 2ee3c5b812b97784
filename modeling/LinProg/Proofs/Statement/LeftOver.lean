import LinProg.Proofs.Statement.Failure
import LinProg.Proofs.Text.Position
import LinProg.Statement.Position

set_option autoImplicit false

/-! # What readers leave over

A reader cuts its text once: it leaves the end of it over, or fails there. `LeftOver` lists what can
be left over, and all of it ends the text (`LeftOver.suffix`). Positions are computed from that: a
text that ends the line starts at the length of the line less its own (`offsetOf`), which is no
truncated difference, and a reader that reads something leaves less over than there was. -/

namespace LinProg

open Text Numeral Grammar

/-- What the readers leave over of a text, and what they fail at. -/
inductive LeftOver (text : List Char) : List Char → Prop
  | space : LeftOver text (skipWhiteSpace text)
  | sign {s : Sign} {rest : List Char} (h : readSign? text = some (s, rest)) : LeftOver text rest
  | name {name : String} {rest : List Char} (h : readName? text = some (name, rest)) :
      LeftOver text rest
  | relation {r : Relation} {rest : List Char} (h : readRelation? text = some (r, rest)) :
      LeftOver text rest
  | direction {d : Direction} {rest : List Char} (h : readDirection? text = some (d, rest)) :
      LeftOver text rest
  | coefficient : LeftOver text (readCoefficient text).2
  | term {t : Term} {rest : List Char} (h : readTerm text = .ok (t, rest)) : LeftOver text rest
  | noTerm {unread : List Char} (h : readTerm text = .error unread) : LeftOver text unread
  | expression {e : Expression} {rest : List Char} (h : readExpression text = .ok (e, rest)) :
      LeftOver text rest
  | noExpression {unread : List Char} (h : readExpression text = .error unread) :
      LeftOver text unread
  | noObjective {f : Failure} (h : readObjective text = .error f) : LeftOver text f.unread
  | noRestriction {f : Failure} (h : readRestriction text = .error f) : LeftOver text f.unread
  | noSignRestriction {f : Failure} (h : readSignRestriction text = .error f) :
      LeftOver text f.unread

/-- A statement fails at the end of its text. -/
theorem Failure.WellPlaced.unread_suffix {f : Failure} {phase : Phase} {text : List Char}
    (h : f.WellPlaced phase text) : f.unread <:+ text := by
  obtain ⟨before, htext, -⟩ := h.fits
  exact ⟨before, htext.symm⟩

/-- What is left over ends the text. -/
theorem LeftOver.suffix {text rest : List Char} (h : LeftOver text rest) : rest <:+ text := by
  cases h with
  | space => exact List.dropWhile_suffix isWhiteSpace
  | @sign s _ h => exact ⟨[s.char], (readSign?_eq_some h).symm⟩
  | name h =>
    obtain ⟨n, htext, -⟩ := exists_of_readName? h
    exact ⟨n.chars, htext⟩
  | relation h =>
    obtain ⟨s, htext, -⟩ := readRelation?_eq_some_iff.1 h
    exact ⟨s.chars, htext⟩
  | @direction d _ h => exact ⟨d.keyword, (readDirection?_eq_some_iff.1 h).1⟩
  | coefficient =>
    obtain ⟨c, htext, -⟩ := exists_of_readCoefficient text
    exact ⟨c.chars, htext⟩
  | term h =>
    obtain ⟨m, htext, -⟩ := exists_of_readTerm_ok h
    exact ⟨m.chars, htext⟩
  | noTerm h =>
    obtain ⟨c, htext, -⟩ := readTerm_eq_error_iff.1 h
    exact ⟨c.chars, htext⟩
  | expression h =>
    obtain ⟨s, rfl, -, rfl⟩ := readExpression_eq_ok_iff.1 h
    exact s.tail_suffix
  | noExpression h =>
    obtain ⟨k, rfl, rfl⟩ := readExpression_eq_error_iff.1 h
    exact k.unread_suffix
  | noObjective h => exact (readObjective_error h).unread_suffix
  | noRestriction h => exact (readRestriction_error h).unread_suffix
  | noSignRestriction h => exact (readSignRestriction_error h).unread_suffix

/-- What is left over at a position ends the line. -/
theorem LeftOver.suffix_line {line : String} {pos : Nat} {rest : List Char}
    (h : LeftOver (textFrom line pos) rest) : rest <:+ line.toList :=
  h.suffix.trans (textFrom_suffix line pos)

theorem length_readRelation? {text rest : List Char} {r : Relation}
    (h : readRelation? text = some (r, rest)) : rest.length < text.length := by
  obtain ⟨s, rfl, -, -⟩ := readRelation?_eq_some_iff.1 h
  have hpos : 0 < s.chars.length := by cases s <;> decide
  rw [List.length_append]
  omega

theorem length_readExpression {text rest : List Char} {e : Expression}
    (h : readExpression text = .ok (e, rest)) : rest.length < text.length := by
  obtain ⟨s, rfl, -, rfl⟩ := readExpression_eq_ok_iff.1 h
  simp only [Split.chars, Split.moreChars, Monomial.chars, Name.chars, List.length_append,
    List.length_cons]
  omega

theorem byteLength_lt_of_suffix {text rest : List Char} (h : rest <:+ text)
    (hlt : rest.length < text.length) : byteLength rest < byteLength text := by
  obtain ⟨first, rfl⟩ := h
  cases first with
  | nil => simp at hlt
  | cons c first =>
    have hpos := c.utf8Size_pos
    rw [List.cons_append, byteLength_cons, byteLength_append]
    omega

/-- A reading with the position of what it leaves over. One that fails lacks a name. -/
def located (line : String) {α : Type} :
    Except (List Char) (α × List Char) → Except ParseError (α × Nat)
  | .ok (a, rest) => .ok (a, offsetOf line rest)
  | .error unread => .error (Failure.locate line ⟨.invalidVariable, unread⟩)

theorem termAt_eq_located (line : String) (pos : Nat) :
    termAt line pos = located line (readTerm (textFrom line pos)) := by
  unfold termAt
  cases readTerm (textFrom line pos) <;> rfl

theorem expressionAt_eq_located (line : String) (pos : Nat) :
    expressionAt line pos = located line (readExpression (textFrom line pos)) := by
  unfold expressionAt
  cases readExpression (textFrom line pos) <;> rfl

/-- What is read with positions goes with what is read. -/
theorem located_map (line : String) {α β : Type} (f : α → β)
    (x : Except (List Char) (α × List Char)) :
    located line (x.map fun r => (f r.1, r.2)) = (located line x).map fun r => (f r.1, r.2) := by
  cases x <;> rfl

end LinProg
