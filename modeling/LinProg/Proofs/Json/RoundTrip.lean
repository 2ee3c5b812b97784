import LinProg.Proofs.Json.Escape
import LinProg.Proofs.Json.Number

set_option autoImplicit false

/-! # Reading a written value back

The two steps of the reader are inverted one after the other. The tokens of a text are those of the
value that was written, in whichever layout it was (`lexes_write`); the layouts differ in white
space only. And putting the tokens of a value together gives the value (`parseValue?_tokens`). So a
value whose numbers are all finite is read back from its text (`read?_write`). -/

namespace LinProg.Json

open Text

/-! ## Tokens of a value -/

mutual

def tokens : Json → List Token
  | .array elements => .beginArray :: elementTokens true elements
  | .object members => .beginObject :: memberTokens true members
  | v => [.scalar v]

/-- The tokens of the elements of an array that are still to come, and of the closing bracket. -/
def elementTokens (first : Bool) : List Json → List Token
  | [] => [.endArray]
  | element :: elements =>
    (if first then [] else [.valueSeparator]) ++ (tokens element ++ elementTokens false elements)

/-- The tokens of the members of an object that are still to come, and of the closing bracket. -/
def memberTokens (first : Bool) : List (String × Json) → List Token
  | [] => [.endObject]
  | (name, value) :: members =>
    (if first then [] else [.valueSeparator]) ++
      (.scalar (.string name) :: .nameSeparator :: (tokens value ++ memberTokens false members))

end

/-! ## Putting tokens together -/

theorem parseValue?_beginArray {frames : List Frame} {v : Json} {ts : List Token} :
    parseValue? frames (.beginArray :: (tokens v ++ ts)) =
      parseValue? (.elements [] :: frames) (tokens v ++ ts) := by
  cases v <;> rfl

mutual

theorem parseValue?_tokens (frames : List Frame) (ts : List Token) :
    (v : Json) → parseValue? frames (tokens v ++ ts) = parseAfter? frames v ts
  | .null | .boolean _ | .integer _ | .real _ | .string _ => rfl
  | .array [] => rfl
  | .array (element :: elements) => by
    have happend : tokens (.array (element :: elements)) ++ ts =
        .beginArray :: (tokens element ++ (elementTokens false elements ++ ts)) := by
      simp [tokens, elementTokens]
    rw [happend, parseValue?_beginArray, parseValue?_tokens _ _ element,
      parseAfter?_elementTokens frames [] element ts elements]
    rfl
  | .object [] => rfl
  | .object ((name, value) :: members) => by
    have happend : tokens (.object ((name, value) :: members)) ++ ts =
        .beginObject :: .scalar (.string name) :: .nameSeparator ::
          (tokens value ++ (memberTokens false members ++ ts)) := by
      simp [tokens, memberTokens]
    rw [happend, parseValue?, parseMember?, parseValue?_tokens _ _ value,
      parseAfter?_memberTokens frames [] name value ts members]
    · rfl
    · simp

theorem parseAfter?_elementTokens (frames : List Frame) (before : List Json) (v : Json)
    (ts : List Token) : (elements : List Json) →
    parseAfter? (.elements before :: frames) v (elementTokens false elements ++ ts) =
      parseAfter? frames (.array (before ++ v :: elements)) ts
  | [] => rfl
  | element :: elements => by
    have happend : elementTokens false (element :: elements) ++ ts =
        .valueSeparator :: (tokens element ++ (elementTokens false elements ++ ts)) := by
      simp [elementTokens]
    rw [happend, parseAfter?, parseValue?_tokens _ _ element,
      parseAfter?_elementTokens frames (before ++ [v]) element ts elements, List.append_assoc,
      List.singleton_append]

theorem parseAfter?_memberTokens (frames : List Frame) (before : List (String × Json))
    (name : String) (v : Json) (ts : List Token) : (members : List (String × Json)) →
    parseAfter? (.members before name :: frames) v (memberTokens false members ++ ts) =
      parseAfter? frames (.object (before ++ (name, v) :: members)) ts
  | [] => rfl
  | (name', value) :: members => by
    have happend : memberTokens false ((name', value) :: members) ++ ts =
        .valueSeparator :: .scalar (.string name') :: .nameSeparator ::
          (tokens value ++ (memberTokens false members ++ ts)) := by
      simp [memberTokens]
    rw [happend, parseAfter?, parseMember?, parseValue?_tokens _ _ value,
      parseAfter?_memberTokens frames (before ++ [(name, v)]) name' value ts members,
      List.append_assoc, List.singleton_append]

end

/-! ## Cutting a text into tokens -/

/-- Whether a piece of text, wherever it is followed by something that does not continue a number,
    is cut into the given tokens. -/
def Lexes (piece : List Char) (ts : List Token) : Prop :=
  ∀ text, Ends continuesNumber text → lex? (piece ++ text) = (lex? text).map (ts ++ ·)

theorem Lexes.append {piece piece' : List Char} {ts ts' : List Token} (h : Lexes piece ts)
    (h' : Lexes piece' ts') (hends : Ends continuesNumber piece') :
    Lexes (piece ++ piece') (ts ++ ts') := by
  intro text htext
  have hends' : Ends continuesNumber (piece' ++ text) := by
    cases piece' with
    | nil => exact htext
    | cons c piece' => exact ends_cons.2 (ends_cons.1 hends)
  rw [List.append_assoc, h _ hends', h' text htext, Option.map_map]
  congr 1
  funext more
  exact (List.append_assoc ts ts' more).symm

theorem lex?_of_readToken? {c : Char} {text rest : List Char} {token : Token}
    (hspace : isSpace c = false) (h : readToken? (c :: text) = some (token, rest)) :
    lex? (c :: text) = (lex? rest).map (token :: ·) := by
  rw [lex?, if_neg (by simp [hspace])]
  split
  · next h' =>
    rw [h] at h'
    cases h'
    rfl
  · next h' =>
    rw [h] at h'
    cases h'

/-- A structural character is a token wherever it stands. -/
theorem Lexes.cons {c : Char} {token : Token} {piece : List Char} {ts : List Token}
    (h : Lexes piece ts) (hspace : isSpace c = false) (hc : Token.ofChar? c = some token) :
    Lexes (c :: piece) (token :: ts) := by
  intro text htext
  have hread : readToken? (c :: (piece ++ text)) = some (token, piece ++ text) := by
    simp only [readToken?, hc]
  rw [List.cons_append, lex?_of_readToken? hspace hread, h text htext, Option.map_map]
  rfl

theorem lex?_cons_of_isSpace {c : Char} (h : isSpace c = true) (text : List Char) :
    lex? (c :: text) = lex? text := by
  rw [lex?, if_pos h]

theorem lex?_spaces (n : Nat) (text : List Char) :
    lex? (List.replicate n ' ' ++ text) = lex? text := by
  induction n with
  | zero => rfl
  | succ n ih =>
    rw [List.replicate_succ, List.cons_append, lex?_cons_of_isSpace (by decide), ih]

/-- The start of a new line is no token. -/
theorem Lexes.lineBreak_append {piece : List Char} {ts : List Token} (h : Lexes piece ts)
    (depth : Depth) : Lexes (depth.lineBreak ++ piece) ts := by
  cases depth with
  | none => exact h
  | some n =>
    intro text htext
    rw [Depth.lineBreak, List.cons_append, List.cons_append, lex?_cons_of_isSpace (by decide),
      List.append_assoc, lex?_spaces, h text htext]

/-- The colon between a name and its value is a token in either layout. -/
theorem Lexes.colon_append {piece : List Char} {ts : List Token} (h : Lexes piece ts)
    (depth : Depth) : Lexes (depth.colon ++ piece) (.nameSeparator :: ts) := by
  cases depth with
  | none => exact h.cons (by decide) rfl
  | some n =>
    have hspace : Lexes (' ' :: piece) ts := by
      intro text htext
      rw [List.cons_append, lex?_cons_of_isSpace (by decide), h text htext]
    exact hspace.cons (by decide) rfl

/-! ## Scalars -/

/-- No scalar starts with white space or a structural character. -/
theorem readScalar?_eq_none {c : Char} (h : isSpace c = true ∨ (Token.ofChar? c).isSome = true)
    (text : List Char) : readScalar? (c :: text) = none := by
  rcases h with h | h
  · simp only [isSpace, Bool.or_eq_true, decide_eq_true_eq] at h
    rcases h with ((rfl | rfl) | rfl) | rfl <;> rfl
  · unfold Token.ofChar? at h
    split at h <;> first | rfl | cases h

theorem Lexes.of_readScalar? {piece : List Char} {v : Json}
    (h : ∀ text, Ends continuesNumber text → readScalar? (piece ++ text) = some (v, text)) :
    Lexes piece [.scalar v] := by
  intro text htext
  have hread := h text htext
  cases hpiece : piece ++ text with
  | nil =>
    rw [hpiece] at hread
    cases hread
  | cons c body =>
    rw [hpiece] at hread
    have hspace : isSpace c = false := by
      rw [Bool.eq_false_iff]
      intro hc
      rw [readScalar?_eq_none (Or.inl hc)] at hread
      cases hread
    have hmark : Token.ofChar? c = none := by
      rw [← Option.not_isSome_iff_eq_none]
      intro hc
      rw [readScalar?_eq_none (Or.inr hc)] at hread
      cases hread
    have htoken : readToken? (c :: body) = some (.scalar v, text) := by
      simp only [readToken?, hmark, hread, Option.map_some]
    rw [lex?_of_readToken? hspace htoken]
    rfl

/-- What is read as a number is read as nothing else. -/
theorem readScalar?_of_readNumber? {text rest : List Char} {v : Json}
    (h : readNumber? text = some (v, rest)) : readScalar? text = some (v, rest) := by
  unfold readScalar?
  split
  · cases h
  · have hliteral : readLiteral? text = none := by
      unfold readLiteral?
      split
      · cases h
      · cases h
      · cases h
      · rfl
    rw [hliteral, Option.none_or, h]

theorem lexes_stringChars (s : String) : Lexes (stringChars s) [.scalar (.string s)] :=
  .of_readScalar? fun text _ => readScalar?_stringChars s text

/-! ## Values -/

/-- Every number in the value is finite, as it has to be for its text to state it. -/
inductive AllFinite : Json → Prop
  | null : AllFinite .null
  | boolean (b : Bool) : AllFinite (.boolean b)
  | integer (n : Int) : AllFinite (.integer n)
  | real {x : Binary64} (h : x.isFinite = true) : AllFinite (.real x)
  | string (s : String) : AllFinite (.string s)
  | array {elements : List Json} (h : ∀ v ∈ elements, AllFinite v) : AllFinite (.array elements)
  | object {members : List (String × Json)} (h : ∀ m ∈ members, AllFinite m.2) :
    AllFinite (.object members)

theorem ends_writeElements (depth : Depth) (elements : List Json) :
    Ends continuesNumber (writeElements depth false elements) := by
  cases elements with
  | nil => cases depth <;> exact ends_cons.2 (by decide)
  | cons element elements => exact ends_cons.2 (by decide)

theorem ends_writeMembers (depth : Depth) (members : List (String × Json)) :
    Ends continuesNumber (writeMembers depth false members) := by
  cases members with
  | nil => cases depth <;> exact ends_cons.2 (by decide)
  | cons m members => exact ends_cons.2 (by decide)

theorem ends_colon_append (depth : Depth) (piece : List Char) :
    Ends continuesNumber (depth.colon ++ piece) := by
  cases depth <;> exact ends_cons.2 (by decide)

theorem lexes_closing (depth : Depth) (first : Bool) {c : Char} {token : Token}
    (hspace : isSpace c = false) (hc : Token.ofChar? c = some token) :
    Lexes ((if first then [] else depth.lineBreak) ++ [c]) [token] := by
  have hnil : Lexes [] [] := by
    intro text _
    exact Option.map_id_apply.symm
  have hclose := hnil.cons hspace hc
  cases first with
  | true => exact hclose
  | false => exact hclose.lineBreak_append depth

theorem Lexes.comma_append {piece : List Char} {ts : List Token} (h : Lexes piece ts)
    (first : Bool) : Lexes ((if first then [] else [',']) ++ piece)
      ((if first then [] else [.valueSeparator]) ++ ts) := by
  cases first with
  | true => exact h
  | false => exact h.cons (by decide) rfl

theorem lexes_writeElements {elements : List Json}
    (h : ∀ v ∈ elements, ∀ depth, Lexes (write depth v) (tokens v)) (depth : Depth)
    (first : Bool) : Lexes (writeElements depth first elements) (elementTokens first elements) := by
  induction elements generalizing first with
  | nil => exact lexes_closing depth first (by decide) rfl
  | cons element elements ih =>
    have hmore := ih (fun v hv => h v (List.mem_cons_of_mem _ hv)) false
    have hvalue := (h element List.mem_cons_self depth.deeper).append hmore
      (ends_writeElements depth elements)
    have hall := (hvalue.lineBreak_append depth.deeper).comma_append first
    rwa [← List.append_assoc, ← List.append_assoc] at hall

theorem lexes_writeMembers {members : List (String × Json)}
    (h : ∀ m ∈ members, ∀ depth, Lexes (write depth m.2) (tokens m.2)) (depth : Depth)
    (first : Bool) : Lexes (writeMembers depth first members) (memberTokens first members) := by
  induction members generalizing first with
  | nil => exact lexes_closing depth first (by decide) rfl
  | cons m members ih =>
    obtain ⟨name, value⟩ := m
    have hmore := ih (fun m hm => h m (List.mem_cons_of_mem _ hm)) false
    have hvalue := (h (name, value) List.mem_cons_self depth.deeper).append hmore
      (ends_writeMembers depth members)
    have hmember := (lexes_stringChars name).append (hvalue.colon_append depth)
      (ends_colon_append depth _)
    have hall := (hmember.lineBreak_append depth.deeper).comma_append first
    simp only [writeMembers, List.append_assoc] at hall ⊢
    exact hall

theorem lexes_write {v : Json} (h : AllFinite v) : ∀ depth, Lexes (write depth v) (tokens v) := by
  induction h with
  | null => exact fun depth => .of_readScalar? fun text _ => rfl
  | boolean b =>
    intro depth
    cases b <;> exact .of_readScalar? fun text _ => rfl
  | integer n =>
    exact fun depth => .of_readScalar? fun text htext =>
      readScalar?_of_readNumber? (readNumber?_integerChars n htext)
  | real h =>
    exact fun depth => .of_readScalar? fun text htext =>
      readScalar?_of_readNumber? (readNumber?_realChars h htext)
  | string s => exact fun depth => lexes_stringChars s
  | array _ ih => exact fun depth => (lexes_writeElements ih depth true).cons (by decide) rfl
  | object _ ih => exact fun depth => (lexes_writeMembers ih depth true).cons (by decide) rfl

/-- **A written value is read back**, whatever its shape and whichever the layout. -/
theorem read?_write {v : Json} (h : AllFinite v) (depth : Depth) :
    read? (.ofList (write depth v)) = some v := by
  have hlex := lexes_write h depth [] ends_nil
  have hparse := parseValue?_tokens [] [] v
  rw [List.append_nil] at hlex hparse
  rw [read?, String.toList_ofList, hlex, lex?, Option.map_some, Option.bind_some, List.append_nil,
    hparse]
  rfl

end LinProg.Json
