import LinProg.Proofs.Expression.Position
import LinProg.Proofs.Statement.LeftOver

set_option autoImplicit false

/-! # Reading is local

What a reader finds at a position depends on the text from there on alone. With another text before
the line everything is found as far to the right as that text is long (`moved`), and what comes
after an expression matters only as far as it could continue the expression (`Follows`): its first
character is neither white space nor a sign, and it does not go on with the name before it. -/

namespace LinProg

open Text Numeral Grammar

/-! ## Text before the line -/

/-- What is reported of a line, as it is to be reported of the line with a text before it. -/
def moved (before : String) {α : Type} : Except ParseError (α × Nat) → Except ParseError (α × Nat)
  | .ok (a, last) => .ok (a, before.utf8ByteSize + last)
  | .error e => .error ⟨e.fault, before ++ e.line, before.utf8ByteSize + e.offset⟩

section Before

variable (before line : String) (pos : Nat)

theorem textFrom_append :
    textFrom (before ++ line) (before.utf8ByteSize + pos) = textFrom line pos := by
  rw [textFrom, String.toList_append, ← byteLength_toList, dropBytes_add, textFrom]

theorem offsetOf_append {rest : List Char} (h : rest <:+ line.toList) :
    offsetOf (before ++ line) rest = before.utf8ByteSize + offsetOf line rest := by
  obtain ⟨first, hline⟩ := h
  have hlonger : (before ++ line).toList = (before.toList ++ first) ++ rest := by
    rw [String.toList_append, ← hline, List.append_assoc]
  rw [offsetOf_eq hlonger, offsetOf_eq hline.symm, byteLength_append, byteLength_toList]

theorem skipWhiteSpaceAt_append :
    skipWhiteSpaceAt (before ++ line) (before.utf8ByteSize + pos) =
      before.utf8ByteSize + skipWhiteSpaceAt line pos := by
  rw [skipWhiteSpaceAt, textFrom_append, offsetOf_append before line LeftOver.space.suffix_line,
    skipWhiteSpaceAt]

theorem signAt?_append :
    signAt? (before ++ line) (before.utf8ByteSize + pos) =
      (signAt? line pos).map fun r => (r.1, before.utf8ByteSize + r.2) := by
  rw [signAt?, signAt?, textFrom_append]
  cases h : readSign? (textFrom line pos) with
  | none => rfl
  | some r =>
    have hrest := offsetOf_append before line (LeftOver.sign h).suffix_line
    simp only [Option.map_some, hrest]

theorem nameAt_append :
    nameAt (before ++ line) (before.utf8ByteSize + pos) = moved before (nameAt line pos) := by
  rw [nameAt, nameAt, textFrom_append]
  cases h : readName? (textFrom line pos) with
  | none => rfl
  | some r =>
    have hrest := offsetOf_append before line (LeftOver.name h).suffix_line
    simp only [hrest, moved]

theorem relationAt_append :
    relationAt (before ++ line) (before.utf8ByteSize + pos) =
      moved before (relationAt line pos) := by
  rw [relationAt, relationAt, textFrom_append]
  cases h : readRelation? (textFrom line pos) with
  | none => rfl
  | some r =>
    have hrest := offsetOf_append before line (LeftOver.relation h).suffix_line
    simp only [hrest, moved]

/-- Readings with positions are moved if what they leave over ends the line. -/
theorem located_append {α : Type} {x : Except (List Char) (α × List Char)}
    (hok : ∀ a rest, x = .ok (a, rest) → rest <:+ line.toList)
    (herror : ∀ unread, x = .error unread → unread <:+ line.toList) :
    located (before ++ line) x = moved before (located line x) := by
  cases x with
  | error unread =>
    rw [located, Failure.locate, offsetOf_append before line (herror unread rfl)]
    rfl
  | ok r =>
    rw [located, offsetOf_append before line (hok r.1 r.2 rfl)]
    rfl

theorem termAt_append :
    termAt (before ++ line) (before.utf8ByteSize + pos) = moved before (termAt line pos) := by
  rw [termAt_eq_located, termAt_eq_located, textFrom_append]
  exact located_append before line (fun _ _ h => (LeftOver.term h).suffix_line)
    fun _ h => (LeftOver.noTerm h).suffix_line

theorem expressionAt_append :
    expressionAt (before ++ line) (before.utf8ByteSize + pos) =
      moved before (expressionAt line pos) := by
  rw [expressionAt_eq_located, expressionAt_eq_located, textFrom_append]
  exact located_append before line (fun _ _ h => (LeftOver.expression h).suffix_line)
    fun _ h => (LeftOver.noExpression h).suffix_line

end Before

/-! ## Text after an expression -/

/-- Whether a text continues no expression that ends where another text does: it starts with neither
    white space nor a sign and, if the other text ends in a letter or digit, with none of these. -/
def Follows (head tail : List Char) : Prop :=
  ∀ c ∈ tail.head?, stopsAt c = true ∧
    ∀ d ∈ head.getLast?, d.isAlphanum = true → c.isAlphanum = false

theorem Grammar.Name.isAlphanum_of_mem (n : Name) {c : Char} (h : c ∈ n.chars) :
    c.isAlphanum = true := by
  rcases List.mem_cons.1 h with rfl | h
  · exact isAlphanum_of_isAlpha n.first_isAlpha
  · exact n.more_isAlphanum c h

namespace Grammar.Split

/-- Without white space at its end an expression ends in a name. -/
theorem exists_name_suffix (s : Split) (h : s.trailing.chars = []) :
    ∃ n : Name, n.chars <:+ s.expressionChars := by
  rcases List.eq_nil_or_concat' s.links with hlinks | ⟨links, l, hlinks⟩
  · refine ⟨s.first.name, s.leading.chars ++ s.first.coefficient.chars, ?_⟩
    simp [expressionChars, hlinks, h, Monomial.chars]
  · refine ⟨l.monomial.name, s.leading.chars ++ (s.first.chars ++ (links.flatMap Link.chars ++
      (l.before.chars ++ l.sign.char :: (l.between.chars ++ l.monomial.coefficient.chars)))), ?_⟩
    simp [expressionChars, hlinks, h, Link.chars, Monomial.chars]

/-- A text that continues no expression that ends like this one does not go on with its name. -/
theorem ends_isAlphanum_of_follows (s : Split) {before tail : List Char}
    (h : Follows (before ++ s.expressionChars) tail) :
    Ends Char.isAlphanum (s.trailing.chars ++ tail) := by
  rcases htrailing : s.trailing.chars with _ | ⟨space, spaces⟩
  · obtain ⟨n, first, hchars⟩ := s.exists_name_suffix htrailing
    have hne : n.chars ≠ [] := List.cons_ne_nil _ _
    have hlast : (before ++ s.expressionChars).getLast? = n.chars.getLast? := by
      rw [← hchars, ← List.append_assoc, List.getLast?_append_of_ne_nil _ hne]
    intro c hc
    refine (h c hc).2 (n.chars.getLast hne) ?_ (n.isAlphanum_of_mem (List.getLast_mem hne))
    exact hlast.trans (List.getLast?_eq_some_getLast hne)
  · have hwhite := s.trailing.all_white space (htrailing ▸ List.mem_cons_self)
    exact ends_cons.2 (not_isAlphanum_of_isWhiteSpace hwhite)

end Grammar.Split

/-- What is read as an expression is read as the same expression up to the same place if another
    text comes after that place that does not continue it. -/
theorem exists_head_of_expressionAt {line : String} {pos last : Nat} {e : Expression}
    (h : expressionAt line pos = .ok (e, last)) :
    ∃ head rest : String, line = head ++ rest ∧ head.utf8ByteSize = last ∧
      ∀ tail : String, Follows head.toList tail.toList →
        expressionAt (head ++ tail) pos = .ok (e, last) := by
  obtain ⟨s, hs, rfl, hlast⟩ := (expressionAt_eq_ok_iff line pos).1 h
  -- The text at the position is not empty, so that the line goes on with it there.
  obtain ⟨before, hline, hpos⟩ : StartsAt line pos s.chars :=
    hs ▸ (textFrom_eq_nil_or line pos).resolve_left (hs ▸ s.chars_ne_nil)
  have hhead : line.toList = (before ++ s.expressionChars) ++ s.tail := by
    rw [hline, List.append_assoc, s.expressionChars_append_tail]
  have hsize : byteLength (before ++ s.expressionChars) = last :=
    (offsetOf_eq hhead).symm.trans hlast.offsetOf_eq
  refine ⟨.ofList (before ++ s.expressionChars), .ofList s.tail, ?_, ?_, ?_⟩
  · rw [← String.ofList_append, ← hhead, String.ofList_toList]
  · rw [utf8ByteSize_ofList, hsize]
  · intro tail htail
    rw [String.toList_ofList] at htail
    have hchars : (String.ofList (before ++ s.expressionChars) ++ tail).toList =
        before ++ (s.expressionChars ++ tail.toList) := by
      rw [String.toList_append, String.toList_ofList, List.append_assoc]
    let other := s.withTail tail.toList (fun c hc => (htail c hc).1)
      (s.ends_isAlphanum_of_follows htail)
    have hother : other.chars = s.expressionChars ++ tail.toList :=
      other.expressionChars_append_tail.symm
    refine (expressionAt_eq_ok_iff _ pos).2 ⟨other, ?_, rfl, ?_⟩
    · rw [hother]
      exact (textFrom_of_startsAt ⟨before, hchars, hpos⟩).symm
    · exact ⟨before ++ s.expressionChars, by rw [hchars, List.append_assoc]; rfl, hsize⟩

/-- **Reading is local.** With a text before the line every reader finds the same, as much further
    to the right as the text is long. And an expression that is read up to a place is read up to
    there whatever comes after it, as long as that does not continue the expression. -/
theorem reading_is_local :
    (∀ (before line : String) (pos : Nat),
      skipWhiteSpaceAt (before ++ line) (before.utf8ByteSize + pos) =
          before.utf8ByteSize + skipWhiteSpaceAt line pos ∧
        signAt? (before ++ line) (before.utf8ByteSize + pos) =
          (signAt? line pos).map (fun r => (r.1, before.utf8ByteSize + r.2)) ∧
        nameAt (before ++ line) (before.utf8ByteSize + pos) = moved before (nameAt line pos) ∧
        termAt (before ++ line) (before.utf8ByteSize + pos) = moved before (termAt line pos) ∧
        expressionAt (before ++ line) (before.utf8ByteSize + pos) =
          moved before (expressionAt line pos) ∧
        relationAt (before ++ line) (before.utf8ByteSize + pos) =
          moved before (relationAt line pos)) ∧
    ∀ (line : String) (pos last : Nat) (e : Expression), expressionAt line pos = .ok (e, last) →
      ∃ head rest : String, line = head ++ rest ∧ head.utf8ByteSize = last ∧
        ∀ tail : String, Follows head.toList tail.toList →
          expressionAt (head ++ tail) pos = .ok (e, last) := by
  refine ⟨?_, ?_⟩
  · intro before line pos
    exact ⟨skipWhiteSpaceAt_append before line pos, signAt?_append before line pos,
      nameAt_append before line pos, termAt_append before line pos,
      expressionAt_append before line pos, relationAt_append before line pos⟩
  · intro line pos last e h
    exact exists_head_of_expressionAt h

end LinProg
