import LinProg.Proofs.Statement.LeftOver

set_option autoImplicit false

/-! # Positions that readers report

At a position of a line a reader reports positions of the line only, none of them before the one it
was asked for, and what it reads takes up at least one byte (`Moves`). At any other number it finds
the end of the line (`textFrom_of_not_isValid`).

An expression is read in rounds, each of which goes on from the position that the one before it
reports. `roundAt?` is one round, said in positions alone, and `Rounds` what the rounds from a
position on come to, however many there are. Every round goes forward (`lt_of_roundAt?`), so that
the rounds end wherever they start (`exists_rounds`), and what is read as an expression is what they
come to (`readByRounds_expressionAt`). -/

namespace LinProg

open Text Numeral Grammar

/-! ## Positions -/

/-- A position of a line that is not before another one. -/
structure Reaches (line : String) (pos next : Nat) : Prop where
  le : pos ≤ next
  le_size : next ≤ line.utf8ByteSize
  isValid : String.Pos.Raw.IsValid line ⟨next⟩

theorem Reaches.trans {line : String} {a b c : Nat} (h : Reaches line a b) (h' : Reaches line b c) :
    Reaches line a c :=
  ⟨h.le.trans h'.le, h'.le_size, h'.isValid⟩

/-- What a reader reports at a position: what it has read and the later position at which that ends,
    or a fault at a position that is not an earlier one. -/
inductive Moves (line : String) (pos : Nat) {α : Type} : Except ParseError (α × Nat) → Prop
  | read (a : α) {last : Nat} (h : Reaches line pos last) (hlt : pos < last) :
      Moves line pos (.ok (a, last))
  | failed (fault : Fault) {offset : Nat} (h : Reaches line pos offset) :
      Moves line pos (.error ⟨fault, line, offset⟩)

/-- The position from another one on at which white space ends: a character that is none comes
    next, or the end of the line. -/
def IsPastSpace (line : String) (pos next : Nat) : Prop :=
  ∃ (s : Space) (rest : List Char), StartsAt line pos (s.chars ++ rest) ∧
    StartsAt line next rest ∧ Ends isWhiteSpace rest

section Valid

variable {line : String} {pos : Nat} (h : String.Pos.Raw.IsValid line ⟨pos⟩)

include h

theorem startsAt_textFrom_of_isValid : StartsAt line pos (textFrom line pos) := by
  obtain ⟨text, htext⟩ := isValid_iff_exists_startsAt.1 h
  rwa [textFrom_of_startsAt htext]

/-- A text that ends the text at a position starts at no earlier position. -/
theorem reaches_offsetOf {rest : List Char} (hrest : rest <:+ textFrom line pos) :
    Reaches line pos (offsetOf line rest) := by
  have hpos := (startsAt_textFrom_of_isValid h).offsetOf_eq
  have hsize := offsetOf_add_byteLength (textFrom_suffix line pos)
  have hline := hrest.trans (textFrom_suffix line pos)
  have hsize' := offsetOf_add_byteLength hline
  obtain ⟨first, htext⟩ := hrest
  have hlength := congrArg byteLength htext
  rw [byteLength_append] at hlength
  refine ⟨by omega, by omega, ?_⟩
  exact isValid_iff_exists_startsAt.2 ⟨rest, (startsAt_iff hline).2 rfl⟩

/-- If it is shorter than that text, it starts at a later one. -/
theorem lt_offsetOf {rest : List Char} (hrest : rest <:+ textFrom line pos)
    (hlt : rest.length < (textFrom line pos).length) : pos < offsetOf line rest := by
  have hpos := (startsAt_textFrom_of_isValid h).offsetOf_eq
  have hsize := offsetOf_add_byteLength (textFrom_suffix line pos)
  have hsize' := offsetOf_add_byteLength (hrest.trans (textFrom_suffix line pos))
  have hlength := byteLength_lt_of_suffix hrest hlt
  omega

theorem isPastSpace_skipWhiteSpaceAt : IsPastSpace line pos (skipWhiteSpaceAt line pos) := by
  obtain ⟨s, htext, hends⟩ := exists_of_skipWhiteSpace (textFrom line pos)
  refine ⟨s, _, ?_, (startsAt_iff LeftOver.space.suffix_line).2 rfl, hends⟩
  rw [htext]
  exact startsAt_textFrom_of_isValid h

theorem reaches_skipWhiteSpaceAt : Reaches line pos (skipWhiteSpaceAt line pos) :=
  reaches_offsetOf h LeftOver.space.suffix

theorem reaches_of_signAt? {sign : Sign} {last : Nat}
    (hsign : signAt? line pos = some (sign, last)) :
    pos < last ∧ Reaches line pos last := by
  obtain ⟨⟨s, rest⟩, hread, heq⟩ := Option.map_eq_some_iff.1 hsign
  cases heq
  have hsuffix := (LeftOver.sign hread).suffix
  exact ⟨lt_offsetOf h hsuffix (length_readSign? hread), reaches_offsetOf h hsuffix⟩

/-- A fault at the position itself. -/
theorem moves_failed {α : Type} (fault : Fault) :
    Moves line pos (.error ⟨fault, line, pos⟩ : Except ParseError (α × Nat)) := by
  have hreaches := reaches_offsetOf h List.suffix_rfl
  rw [(startsAt_textFrom_of_isValid h).offsetOf_eq] at hreaches
  exact .failed fault hreaches

theorem moves_nameAt : Moves line pos (nameAt line pos) := by
  rw [nameAt]
  split
  · next name rest hread =>
    have hsuffix := (LeftOver.name hread).suffix
    exact .read name (reaches_offsetOf h hsuffix) (lt_offsetOf h hsuffix (length_readName? hread))
  · exact moves_failed h .invalidVariable

theorem moves_relationAt : Moves line pos (relationAt line pos) := by
  rw [relationAt]
  split
  · next relation rest hread =>
    have hsuffix := (LeftOver.relation hread).suffix
    exact .read relation (reaches_offsetOf h hsuffix)
      (lt_offsetOf h hsuffix (length_readRelation? hread))
  · exact moves_failed h .missingRelation

/-- Readings with positions go forward if they leave less over. -/
theorem moves_located {α : Type} {x : Except (List Char) (α × List Char)}
    (hok : ∀ a rest, x = .ok (a, rest) →
      rest <:+ textFrom line pos ∧ rest.length < (textFrom line pos).length)
    (herror : ∀ unread, x = .error unread → unread <:+ textFrom line pos) :
    Moves line pos (located line x) := by
  cases x with
  | error unread => exact .failed .invalidVariable (reaches_offsetOf h (herror unread rfl))
  | ok r =>
    obtain ⟨hsuffix, hlt⟩ := hok r.1 r.2 rfl
    exact .read r.1 (reaches_offsetOf h hsuffix) (lt_offsetOf h hsuffix hlt)

theorem moves_termAt : Moves line pos (termAt line pos) := by
  rw [termAt_eq_located]
  refine moves_located h ?_ fun _ hread => (LeftOver.noTerm hread).suffix
  intro t rest hread
  exact ⟨(LeftOver.term hread).suffix, length_readTerm hread⟩

theorem moves_expressionAt : Moves line pos (expressionAt line pos) := by
  rw [expressionAt_eq_located]
  refine moves_located h ?_ fun _ hread => (LeftOver.noExpression hread).suffix
  intro e rest hread
  exact ⟨(LeftOver.expression hread).suffix, length_readExpression hread⟩

end Valid

/-! ## Numbers that are no positions -/

section NotValid

variable {line : String} {pos : Nat} (h : ¬ String.Pos.Raw.IsValid line ⟨pos⟩)

include h

theorem textFrom_of_not_isValid : textFrom line pos = [] := by
  refine (textFrom_eq_nil_or line pos).resolve_right fun hstarts => ?_
  exact h (isValid_iff_exists_startsAt.2 ⟨_, hstarts⟩)

/-- Past the end of a line, and inside a character, readers find the end of the line. Where a single
    part is asked for, the fault is at the number that was asked for. -/
theorem reports_of_not_isValid :
    skipWhiteSpaceAt line pos = line.utf8ByteSize ∧ signAt? line pos = none ∧
      nameAt line pos = .error ⟨.invalidVariable, line, pos⟩ ∧
      relationAt line pos = .error ⟨.missingRelation, line, pos⟩ ∧
      termAt line pos = .error ⟨.invalidVariable, line, line.utf8ByteSize⟩ ∧
      expressionAt line pos = .error ⟨.invalidVariable, line, line.utf8ByteSize⟩ := by
  have hend : offsetOf line [] = line.utf8ByteSize :=
    offsetOf_add_byteLength (List.nil_suffix)
  have htext := textFrom_of_not_isValid h
  refine ⟨?_, ?_, ?_, ?_, ?_, ?_⟩
  · rw [skipWhiteSpaceAt, htext]
    exact hend
  · rw [signAt?, htext]
    rfl
  · rw [nameAt, htext]
    rfl
  · rw [relationAt, htext]
    rfl
  · rw [termAt_eq_located, htext, ← hend]
    rfl
  · rw [expressionAt_eq_located, htext, ← hend]
    rfl

end NotValid

/-! ## Rounds -/

/-- One round of reading an expression at a position: if a sign is there, the term behind it and
    behind white space, under that sign, and the position past the white space after the term. -/
def roundAt? (line : String) (pos : Nat) : Option (Except ParseError (Term × Nat)) :=
  (signAt? line pos).map fun (sign, after) =>
    (termAt line (skipWhiteSpaceAt line after)).map fun (t, last) =>
      (t.signed sign, skipWhiteSpaceAt line last)

/-- What the rounds from a position on come to: their terms and the position after the last one, or
    the error of the one that fails. -/
inductive Rounds (line : String) : Nat → Except ParseError (List Term × Nat) → Prop
  | done {pos : Nat} (h : roundAt? line pos = none) : Rounds line pos (.ok ([], pos))
  | failed {pos : Nat} {err : ParseError} (h : roundAt? line pos = some (.error err)) :
      Rounds line pos (.error err)
  | round {pos next : Nat} {t : Term} {outcome : Except ParseError (List Term × Nat)}
      (h : roundAt? line pos = some (.ok (t, next))) (hmore : Rounds line next outcome) :
      Rounds line pos (outcome.map fun r => (t :: r.1, r.2))

/-- What a first term and the rounds after it come to. -/
inductive ReadByRounds (line : String) (pos : Nat) : Except ParseError (Expression × Nat) → Prop
  | noTerm {err : ParseError} (h : termAt line (skipWhiteSpaceAt line pos) = .error err) :
      ReadByRounds line pos (.error err)
  | terms {t : Term} {last : Nat} {outcome : Except ParseError (List Term × Nat)}
      (h : termAt line (skipWhiteSpaceAt line pos) = .ok (t, last))
      (hmore : Rounds line (skipWhiteSpaceAt line last) outcome) :
      ReadByRounds line pos (outcome.map fun r => (.sum (t :: r.1), r.2))

/-- A round that reads a term goes forward. -/
theorem lt_of_roundAt? {line : String} {pos next : Nat} {t : Term}
    (h : roundAt? line pos = some (.ok (t, next))) : pos < next ∧ Reaches line pos next := by
  obtain ⟨⟨sign, after⟩, hsign, hterm⟩ := Option.map_eq_some_iff.1 h
  have hvalid : String.Pos.Raw.IsValid line ⟨pos⟩ := by
    by_contra hnot
    rw [(reports_of_not_isValid hnot).2.1] at hsign
    cases hsign
  obtain ⟨hlt, hafter⟩ := reaches_of_signAt? hvalid hsign
  have hspace := reaches_skipWhiteSpaceAt hafter.isValid
  have hmoves := moves_termAt hspace.isValid
  cases hread : termAt line (skipWhiteSpaceAt line after) with
  | error err => simp [hread, Except.map] at hterm
  | ok r =>
    simp only [hread, Except.map, Except.ok.injEq, Prod.mk.injEq] at hterm
    rw [hread] at hmoves
    cases hmoves with
    | read _ hlast _ =>
      have hend := reaches_skipWhiteSpaceAt hlast.isValid
      have hreaches := ((hafter.trans hspace).trans hlast).trans hend
      have hle := ((hspace.trans hlast).trans hend).le
      rw [← hterm.2]
      exact ⟨hlt.trans_le hle, hreaches⟩

/-- Wherever rounds start, they end. -/
theorem exists_rounds (line : String) (pos : Nat) : ∃ outcome, Rounds line pos outcome := by
  -- On the number of bytes from the position to the end of the line, which every round lowers.
  induction hsize : line.utf8ByteSize - pos using Nat.strong_induction_on generalizing pos with
  | _ size ih =>
    cases hround : roundAt? line pos with
    | none => exact ⟨_, .done hround⟩
    | some result =>
      cases result with
      | error err => exact ⟨_, .failed hround⟩
      | ok r =>
        obtain ⟨hlt, hreaches⟩ := lt_of_roundAt? hround
        have hle := hreaches.le_size
        obtain ⟨outcome, hmore⟩ := ih (line.utf8ByteSize - r.2) (by omega) r.2 rfl
        exact ⟨_, .round hround hmore⟩

section Expression

variable {line : String} {text : List Char} (h : text <:+ line.toList)

include h

theorem skipWhiteSpaceAt_offsetOf :
    skipWhiteSpaceAt line (offsetOf line text) = offsetOf line (skipWhiteSpace text) := by
  rw [skipWhiteSpaceAt, textFrom_offsetOf h]

theorem termAt_offsetOf : termAt line (offsetOf line text) = located line (readTerm text) := by
  rw [termAt_eq_located, textFrom_offsetOf h]

/-- A round starts where the sign is that the reader finds. -/
theorem roundAt?_of_readSign? {body : List Char} {sign : Sign}
    (hsign : readSign? text = some (sign, body)) :
    roundAt? line (offsetOf line text) =
      some ((located line (readTerm (skipWhiteSpace body))).map fun r =>
        (r.1.signed sign, skipWhiteSpaceAt line r.2)) := by
  have hbody : body <:+ line.toList := (LeftOver.sign hsign).suffix.trans h
  have hspace : skipWhiteSpace body <:+ line.toList := LeftOver.space.suffix.trans hbody
  have hterm : termAt line (skipWhiteSpaceAt line (offsetOf line body)) =
      located line (readTerm (skipWhiteSpace body)) := by
    rw [skipWhiteSpaceAt_offsetOf hbody, termAt_offsetOf hspace]
  simp only [roundAt?, signAt?, textFrom_offsetOf h, hsign, Option.map_some, hterm]

/-- The reader of further terms finds what the rounds come to. -/
theorem rounds_readMoreTerms :
    Rounds line (offsetOf line (skipWhiteSpace text)) (located line (readMoreTerms text)) := by
  -- Along the recursion of the reader. Every call of it is a round.
  induction text using readMoreTerms.induct with
  | case1 text hs =>
    have hspace : skipWhiteSpace text <:+ line.toList := LeftOver.space.suffix.trans h
    rw [readMoreTerms_of_none hs]
    refine .done ?_
    rw [roundAt?, signAt?, textFrom_offsetOf hspace, hs]
    rfl
  | case2 text sign body hs unread ht =>
    have hspace : skipWhiteSpace text <:+ line.toList := LeftOver.space.suffix.trans h
    rw [readMoreTerms_of_error hs ht]
    refine .failed ?_
    rw [roundAt?_of_readSign? hspace hs, ht]
    rfl
  | case3 text sign body hs t after ht ih =>
    have hspace : skipWhiteSpace text <:+ line.toList := LeftOver.space.suffix.trans h
    have hbody : skipWhiteSpace body <:+ line.toList :=
      LeftOver.space.suffix.trans ((LeftOver.sign hs).suffix.trans hspace)
    have hafter : after <:+ line.toList := (LeftOver.term ht).suffix.trans hbody
    rw [readMoreTerms_of_ok hs ht, located_map]
    refine .round ?_ (ih hafter)
    rw [roundAt?_of_readSign? hspace hs, ht, ← skipWhiteSpaceAt_offsetOf hafter]
    rfl

end Expression

/-- An expression is read in rounds. -/
theorem readByRounds_expressionAt (line : String) (pos : Nat) :
    ReadByRounds line pos (expressionAt line pos) := by
  have hspace : skipWhiteSpace (textFrom line pos) <:+ line.toList := LeftOver.space.suffix_line
  have hterm : termAt line (skipWhiteSpaceAt line pos) =
      located line (readTerm (skipWhiteSpace (textFrom line pos))) := termAt_offsetOf hspace
  rw [expressionAt_eq_located, readExpression, readTerms]
  cases ht : readTerm (skipWhiteSpace (textFrom line pos)) with
  | error unread =>
    rw [ht] at hterm
    exact .noTerm hterm
  | ok r =>
    obtain ⟨t, after⟩ := r
    rw [ht] at hterm
    have hafter : after <:+ line.toList := (LeftOver.term ht).suffix.trans hspace
    have hrounds := rounds_readMoreTerms hafter
    rw [← skipWhiteSpaceAt_offsetOf hafter] at hrounds
    have hread := ReadByRounds.terms hterm hrounds
    rw [located_map, located_map]
    cases hmore : located line (readMoreTerms after) with
    | error err =>
      rw [hmore] at hread
      exact hread
    | ok r =>
      rw [hmore] at hread
      exact hread

/-- **Cursor discipline.** What readers leave over ends the line, so that its position is an exact
    difference of lengths. From a position of the line every reader gets to positions of the line
    that are not before it, and to a later one if it reads something; elsewhere it finds the end of
    the line. Reading an expression goes forward in every round, and the rounds end. -/
theorem cursor_discipline (line : String) (pos : Nat) :
    (∀ rest, LeftOver (textFrom line pos) rest →
      rest <:+ line.toList ∧ offsetOf line rest + byteLength rest = line.utf8ByteSize) ∧
    (String.Pos.Raw.IsValid line ⟨pos⟩ →
      IsPastSpace line pos (skipWhiteSpaceAt line pos) ∧
        (∀ sign last, signAt? line pos = some (sign, last) → pos < last ∧ Reaches line pos last) ∧
        Moves line pos (nameAt line pos) ∧ Moves line pos (relationAt line pos) ∧
        Moves line pos (termAt line pos) ∧ Moves line pos (expressionAt line pos)) ∧
    (¬ String.Pos.Raw.IsValid line ⟨pos⟩ →
      skipWhiteSpaceAt line pos = line.utf8ByteSize ∧ signAt? line pos = none ∧
        nameAt line pos = .error ⟨.invalidVariable, line, pos⟩ ∧
        relationAt line pos = .error ⟨.missingRelation, line, pos⟩ ∧
        termAt line pos = .error ⟨.invalidVariable, line, line.utf8ByteSize⟩ ∧
        expressionAt line pos = .error ⟨.invalidVariable, line, line.utf8ByteSize⟩) ∧
    (∀ t next, roundAt? line pos = some (.ok (t, next)) → pos < next ∧ Reaches line pos next) ∧
    (∃ outcome, Rounds line pos outcome) ∧ ReadByRounds line pos (expressionAt line pos) := by
  refine ⟨?_, ?_, reports_of_not_isValid, ?_, exists_rounds line pos,
    readByRounds_expressionAt line pos⟩
  · intro rest hrest
    exact ⟨hrest.suffix_line, offsetOf_add_byteLength hrest.suffix_line⟩
  · intro h
    exact ⟨isPastSpace_skipWhiteSpaceAt h, fun _ _ hsign => reaches_of_signAt? h hsign,
      moves_nameAt h, moves_relationAt h, moves_termAt h, moves_expressionAt h⟩
  · intro t next hround
    exact lt_of_roundAt? hround

end LinProg
