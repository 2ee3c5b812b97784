import LinProg.Proofs.Text.Lines

set_option autoImplicit false

/-! # What the lines of a stream are

`LinesOf feed ret stream lines` says that a stream, of bytes or of characters, consists of the given
lines: each ends with the symbol `feed`, or with `ret` and `feed`, and a last one may end with the
stream. Every stream has lines (`exists_linesOf`). Those of a stream of bytes are what is left of
the pieces that it is cut into (`linesOf_bytes_iff`), and the lines of a text are, in UTF-8, those
of its bytes (`linesOf_encode`). -/

namespace LinProg.Text

/-- The lines that a stream consists of. -/
inductive LinesOf {α : Type} (feed ret : α) : List α → List (List α) → Prop
  | nil : LinesOf feed ret [] []
  /-- No line end comes any more. A carriage return at the end belongs to the line. -/
  | last {line : List α} (hne : line ≠ []) (hfeed : feed ∉ line) : LinesOf feed ret line [line]
  | ended {line rest : List α} {lines : List (List α)} (hfeed : feed ∉ line)
      (hret : line.getLast? ≠ some ret) (h : LinesOf feed ret rest lines) :
      LinesOf feed ret (line ++ feed :: rest) (line :: lines)
  | endedWithReturn {line rest : List α} {lines : List (List α)} (hfeed : feed ∉ line)
      (h : LinesOf feed ret rest lines) :
      LinesOf feed ret (line ++ ret :: feed :: rest) (line :: lines)

/-- A symbol that ends no line becomes the first one of the first line, unless it is a carriage
    return right before a line feed. -/
theorem LinesOf.exists_cons {α : Type} {feed ret a : α} {stream : List α} {lines : List (List α)}
    (ha : feed ≠ a) (h : LinesOf feed ret stream lines) :
    ∃ lines', LinesOf feed ret (a :: stream) lines' := by
  have hmem : ∀ {line : List α}, feed ∉ line → feed ∉ a :: line := by
    intro line hline
    simp [ha, hline]
  cases h with
  | nil => exact ⟨[[a]], .last (by simp) (hmem List.not_mem_nil)⟩
  | last hne hfeed => exact ⟨[a :: stream], .last (by simp) (hmem hfeed)⟩
  | @ended line rest lines hfeed hret h =>
    by_cases hfirst : line = [] ∧ a = ret
    · obtain ⟨rfl, rfl⟩ := hfirst
      exact ⟨[] :: lines, .endedWithReturn List.not_mem_nil h⟩
    · refine ⟨(a :: line) :: lines, .ended (hmem hfeed) ?_ h⟩
      intro hlast
      cases line with
      | nil => exact hfirst ⟨rfl, by simpa using hlast⟩
      | cons b line => exact hret (by simpa using hlast)
  | @endedWithReturn line rest lines hfeed h =>
    exact ⟨(a :: line) :: lines, .endedWithReturn (hmem hfeed) h⟩

/-- What neither ends a line nor can be a part of a line end comes before the first line. -/
theorem LinesOf.append {α : Type} {feed ret : α} {stream : List α} {lines : List (List α)}
    (first : List α) (hne : first ≠ []) (hfeed : feed ∉ first) (hret : first.getLast? ≠ some ret)
    (h : LinesOf feed ret stream lines) :
    LinesOf feed ret (first ++ stream) ((first ++ lines.headD []) :: lines.tail) := by
  have hmem : ∀ {line : List α}, feed ∉ line → feed ∉ first ++ line := by
    intro line hline
    simp [hfeed, hline]
  cases h with
  | nil => exact .last (by simpa using hne) (hmem List.not_mem_nil)
  | last _ hline => exact .last (by simp [hne]) (hmem hline)
  | @ended line rest lines hline hlast h =>
    rw [← List.append_assoc]
    refine .ended (hmem hline) ?_ h
    rcases List.eq_nil_or_concat line with rfl | ⟨init, a, rfl⟩
    · rwa [List.append_nil]
    · rw [List.concat_eq_append, ← List.append_assoc, List.getLast?_concat]
      rwa [List.concat_eq_append, List.getLast?_concat] at hlast
  | @endedWithReturn line rest lines hline h =>
    rw [← List.append_assoc]
    exact .endedWithReturn (hmem hline) h

/-- Every stream has lines. -/
theorem exists_linesOf {α : Type} (feed ret : α) (stream : List α) :
    ∃ lines, LinesOf feed ret stream lines := by
  induction stream with
  | nil => exact ⟨[], .nil⟩
  | cons a stream ih =>
    obtain ⟨lines, h⟩ := ih
    by_cases ha : feed = a
    · subst ha
      exact ⟨[] :: lines, .ended List.not_mem_nil (by simp) h⟩
    · exact h.exists_cons ha

/-! ## Streams of bytes -/

theorem cutLines_of_not_mem {line : List UInt8} (hne : line ≠ []) (h : lineFeed ∉ line) :
    cutLines line = [line] := by
  induction line with
  | nil => exact absurd rfl hne
  | cons b line ih =>
    rw [List.mem_cons, not_or] at h
    rw [cutLines, if_neg (Ne.symm h.1)]
    cases line with
    | nil => rfl
    | cons c line => rw [ih (by simp) h.2]

theorem stripLineEnd_returnLineFeed (line : List UInt8) :
    stripLineEnd (line ++ [carriageReturn] ++ [lineFeed]) = line := by
  rw [stripLineEnd, if_pos List.getLast?_concat, List.dropLast_concat]
  dsimp only
  rw [if_pos List.getLast?_concat, List.dropLast_concat]

theorem stripLineEnd_of_not_mem {line : List UInt8} (h : lineFeed ∉ line) :
    stripLineEnd line = line := by
  refine if_neg ?_
  intro hlast
  exact h (List.mem_of_getLast? hlast)

/-- The pieces without their line ends are the lines. -/
theorem LinesOf.map_stripLineEnd {bytes : List UInt8} {lines : List (List UInt8)}
    (h : LinesOf lineFeed carriageReturn bytes lines) :
    (cutLines bytes).map stripLineEnd = lines := by
  induction h with
  | nil => rfl
  | last hne hfeed =>
    rw [cutLines_of_not_mem hne hfeed, List.map_singleton, stripLineEnd_of_not_mem hfeed]
  | ended hfeed hret _ ih =>
    rw [cutLines_append hfeed, List.map_cons, stripLineEnd_lineFeed hret, ih]
  | @endedWithReturn line rest lines hfeed _ ih =>
    have hbody : lineFeed ∉ line ++ [carriageReturn] := by
      simp [hfeed, show lineFeed ≠ carriageReturn by decide]
    rw [show line ++ carriageReturn :: lineFeed :: rest =
      (line ++ [carriageReturn]) ++ lineFeed :: rest by simp, cutLines_append hbody, List.map_cons,
      stripLineEnd_returnLineFeed, ih]

theorem linesOf_bytes_iff {bytes : List UInt8} {lines : List (List UInt8)} :
    LinesOf lineFeed carriageReturn bytes lines ↔ (cutLines bytes).map stripLineEnd = lines := by
  constructor
  · exact LinesOf.map_stripLineEnd
  · rintro rfl
    obtain ⟨lines, h⟩ := exists_linesOf lineFeed carriageReturn bytes
    rwa [h.map_stripLineEnd]

/-- A stream that ends with a line feed is cut apart from what follows it. -/
theorem cutLines_append_of_getLast? {bytes : List UInt8} (h : bytes.getLast? = some lineFeed)
    (more : List UInt8) : cutLines (bytes ++ more) = cutLines bytes ++ cutLines more := by
  induction bytes with
  | nil => cases h
  | cons b bytes ih =>
    by_cases hb : b = lineFeed
    · rw [List.cons_append, cutLines, cutLines, if_pos hb, if_pos hb, List.cons_append]
      cases bytes with
      | nil => rfl
      | cons c bytes => rw [ih (by simpa using h)]
    · cases bytes with
      | nil => exact absurd (by simpa using h) hb
      | cons c bytes =>
        rw [List.cons_append, cutLines, cutLines, if_neg hb, if_neg hb, ih (by simpa using h)]
        cases hcut : cutLines (c :: bytes) with
        | nil =>
          have := flatten_cutLines (c :: bytes)
          simp [hcut] at this
        | cons piece pieces => rfl

/-! ## Texts -/

@[simp] theorem encode_carriageReturn : encode ['\r'] = [carriageReturn] := by
  decide

theorem encode_cons (c : Char) (text : List Char) :
    encode (c :: text) = encode [c] ++ encode text :=
  encode_append [c] text

/-- The bytes of the lines of a text are the lines of its bytes. -/
theorem linesOf_encode {text : List Char} {lines : List (List Char)}
    (h : LinesOf '\n' '\r' text lines) :
    LinesOf lineFeed carriageReturn (encode text) (lines.map encode) := by
  induction h with
  | nil => exact .nil
  | @last line hne hfeed =>
    refine .last ?_ (lineFeed_not_mem_encode hfeed)
    cases line with
    | nil => exact absurd rfl hne
    | cons c line => simp [encode]
  | @ended line rest lines hfeed hret _ ih =>
    rw [encode_append, encode_cons '\n', encode_lineFeed, List.map_cons]
    exact .ended (lineFeed_not_mem_encode hfeed) (getLast?_encode_ne hret) ih
  | @endedWithReturn line rest lines hfeed _ ih =>
    rw [encode_append, encode_cons '\r', encode_cons '\n', encode_carriageReturn, encode_lineFeed,
      List.map_cons]
    exact .endedWithReturn (lineFeed_not_mem_encode hfeed) ih

/-- A text with a carriage return before every line feed. -/
def withReturns (text : List Char) : List Char :=
  text.flatMap fun c => if c = '\n' then ['\r', '\n'] else [c]

theorem withReturns_line {line : List Char} (h : '\n' ∉ line) (more : List Char) :
    withReturns (line ++ more) = line ++ withReturns more := by
  induction line with
  | nil => rfl
  | cons c line ih =>
    rw [List.mem_cons, not_or] at h
    rw [List.cons_append, List.cons_append, withReturns, List.flatMap_cons, if_neg (Ne.symm h.1),
      ← withReturns, ih h.2]
    rfl

/-- Carriage returns before all line feeds do not belong to the lines, if before there was none. -/
theorem LinesOf.withReturns {text : List Char} {lines : List (List Char)}
    (h : LinesOf '\n' '\r' text lines) (hpair : ¬ ['\r', '\n'] <:+: text) :
    LinesOf '\n' '\r' (withReturns text) lines := by
  induction h with
  | nil => exact .nil
  | @last line hne hfeed =>
    have hline := withReturns_line hfeed []
    rw [List.append_nil, show Text.withReturns [] = [] from rfl, List.append_nil] at hline
    rw [hline]
    exact .last hne hfeed
  | @ended line rest lines hfeed _ _ ih =>
    rw [withReturns_line hfeed]
    exact .endedWithReturn hfeed (ih fun hrest => hpair (hrest.trans ⟨line ++ ['\n'], [], by simp⟩))
  | @endedWithReturn line rest lines _ _ _ =>
    exact absurd ⟨line, rest, by simp⟩ hpair

end LinProg.Text
