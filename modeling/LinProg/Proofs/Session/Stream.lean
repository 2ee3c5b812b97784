import LinProg.Proofs.Session.Compile
import LinProg.Proofs.Session.Invariant
import LinProg.Proofs.Text.LinesOf

set_option autoImplicit false

/-! # What a stream compiles to

`Outcome` says of the lines of a stream what they come to, without running anything: the lines that
are taken are texts and lead a session to some state, and there the stream ends, or the problem is
complete, or the next line is no text, or it is not accepted. A compilation has exactly this outcome
(`outcome_iff`), so that what comes after the line that decides it does not matter, be it text or
not (`run_append`). A text is compiled as the lines it consists of, all of which a session may be
given (`result_compileText`). -/

namespace LinProg

open Text

/-- Whether bytes are those of a text in UTF-8. -/
def Encodes (text : String) (bytes : List UInt8) : Prop :=
  encode text.toList = bytes

/-- What the lines of a stream come to. -/
inductive Outcome (lines : List (List UInt8)) : Except CompileError Model → Prop
  /-- All lines are accepted, or all up to the one that completes the problem. -/
  | finished {taken rest : List (List UInt8)} {texts : List String} {s : Session}
      (hsplit : lines = taken ++ rest) (htexts : List.Forall₂ Encodes texts taken)
      (hfeed : Session.new.feedAll texts = .ok s) (hend : s.phase = .assembled ∨ rest = []) :
      Outcome lines s.finish
  /-- The problem is not complete, and the next line is not text. -/
  | undecodable {taken rest : List (List UInt8)} {line : List UInt8} {texts : List String}
      {s : Session} (hsplit : lines = taken ++ line :: rest)
      (htexts : List.Forall₂ Encodes texts taken) (hfeed : Session.new.feedAll texts = .ok s)
      (hphase : s.phase ≠ .assembled) (hline : ∀ text, ¬ Encodes text line) :
      Outcome lines (.error .invalidText)
  /-- The next line is not accepted. -/
  | rejected {taken rest : List (List UInt8)} {line : List UInt8} {texts : List String}
      {s : Session} {text : String} {e : CompileError} (hsplit : lines = taken ++ line :: rest)
      (htexts : List.Forall₂ Encodes texts taken) (hfeed : Session.new.feedAll texts = .ok s)
      (hline : Encodes text line) (herror : s.feed text = .error e) :
      Outcome lines (.error e)

/-! ## Runs -/

theorem decodeLine?_eq_none_iff {piece : List UInt8} :
    decodeLine? piece = none ↔ ∀ text, ¬ Encodes text (stripLineEnd piece) := by
  rw [Option.eq_none_iff_forall_ne_some]
  exact forall_congr' fun text => not_congr decodeLine?_eq_some_iff

namespace Session

theorem phase_ne_of_feed_error {s : Session} {line : String} {e : CompileError}
    (h : s.feed line = .error e) : s.phase ≠ .assembled := by
  intro hphase
  rw [feed_of_assembled hphase] at h
  cases h

theorem feed_ne_invalidText (s : Session) (line : String) :
    s.feed line ≠ .error .invalidText := by
  intro h
  rcases feed_eq_error h with hmissing | ⟨e, hstatement⟩
  · cases hmissing
  · cases hstatement

theorem finish_ne_invalidText (s : Session) : s.finish ≠ .error .invalidText := by
  intro h
  cases eq_missingObjective_of_finish h

/-- A run takes a line as the session does. -/
theorem result_run_cons {s : Session} (hphase : s.phase ≠ .assembled) {piece : List UInt8}
    {line : String} (hline : decodeLine? piece = some line) (told : List Phase)
    (pieces : List (List UInt8)) :
    (s.run .silent told (piece :: pieces)).result =
      (s.feed line).bind fun s' => (s'.run .silent (told ++ [s.phase]) pieces).result := by
  rw [run.eq_def, if_neg hphase, feed]
  simp only [Listener.silent, hline]
  cases s.step line with
  | error e => rfl
  | ok r => exact result_after _ _

/-- A run stops at the model, whatever pieces are left. -/
theorem run_of_phase {s : Session} (hphase : s.phase = .assembled) (listener : Listener)
    (told : List Phase) (pieces : List (List UInt8)) {fault? : Option String} :
    s.run listener told pieces fault? = s.conclude told := by
  rw [run.eq_def, if_pos hphase]

theorem result_run_of_phase {s : Session} (hphase : s.phase = .assembled) (told : List Phase)
    (pieces : List (List UInt8)) : (s.run .silent told pieces).result = s.finish := by
  rw [run_of_phase hphase, result_conclude]

theorem result_run_nil (s : Session) (told : List Phase) :
    (s.run .silent told []).result = s.finish := by
  rw [run]
  split
  · exact result_conclude s told
  · exact result_conclude s (told ++ [s.phase])

theorem result_run_undecodable {s : Session} (hphase : s.phase ≠ .assembled) {piece : List UInt8}
    (hline : decodeLine? piece = none) (told : List Phase) (pieces : List (List UInt8)) :
    (s.run .silent told (piece :: pieces)).result = .error .invalidText := by
  rw [run, if_neg hphase]
  simp only [Listener.silent, hline]

/-- The result does not depend on what was told before. -/
theorem result_run_told (s : Session) (told told' : List Phase) (pieces : List (List UInt8)) :
    (s.run .silent told pieces).result = (s.run .silent told' pieces).result := by
  induction pieces generalizing s told told' with
  | nil => rw [result_run_nil, result_run_nil]
  | cons piece pieces ih =>
    by_cases hphase : s.phase = .assembled
    · rw [result_run_of_phase hphase, result_run_of_phase hphase]
    · cases hline : decodeLine? piece with
      | none => rw [result_run_undecodable hphase hline, result_run_undecodable hphase hline]
      | some line =>
        rw [result_run_cons hphase hline, result_run_cons hphase hline]
        congr 1
        funext s'
        exact ih s' _ _

/-- A session with its model keeps it. -/
theorem finish_of_feedAll {s s' : Session} {lines : List String} (hphase : s.phase = .assembled)
    (h : s.feedAll lines = .ok s') : s'.phase = .assembled ∧ s'.finish = s.finish := by
  rw [feedAll_of_assembled hphase] at h
  cases h
  exact ⟨hphase, finish_with_lineNumber s _⟩

/-- Accepted lines take a run to where they take the session. -/
theorem result_run_append {s s' : Session} {texts : List String} {taken : List (List UInt8)}
    (htexts : List.Forall₂ Encodes texts (taken.map stripLineEnd))
    (hfeed : s.feedAll texts = .ok s') (told : List Phase) (rest : List (List UInt8)) :
    (s.run .silent told (taken ++ rest)).result = (s'.run .silent told rest).result := by
  induction taken generalizing s texts told with
  | nil =>
    cases htexts
    cases hfeed
    rfl
  | cons piece taken ih =>
    by_cases hphase : s.phase = .assembled
    · obtain ⟨hphase', hfinish⟩ := finish_of_feedAll hphase hfeed
      rw [result_run_of_phase hphase, result_run_of_phase hphase', hfinish]
    · cases htexts with
      | @cons text _ texts _ htext htexts =>
        obtain ⟨t, ht, hrest⟩ := feedAll_cons_eq_ok_iff.1 hfeed
        rw [List.cons_append, result_run_cons hphase (decodeLine?_eq_some_iff.2 htext), ht,
          result_run_told s' told (told ++ [s.phase])]
        exact ih htexts hrest _

/-- What comes after lines that decide the outcome does not bear on a run at all. -/
theorem run_append {s : Session} {taken : List (List UInt8)}
    (hdecided : ∀ texts s', List.Forall₂ Encodes texts (taken.map stripLineEnd) →
      s.feedAll texts = .ok s' → s'.phase = .assembled)
    (listener : Listener) (told : List Phase) (rest : List (List UInt8)) :
    s.run listener told (taken ++ rest) = s.run listener told taken := by
  induction taken generalizing s told with
  | nil =>
    have hphase := hdecided [] s .nil rfl
    rw [run_of_phase hphase, run_of_phase hphase]
  | cons piece taken ih =>
    by_cases hphase : s.phase = .assembled
    · rw [run_of_phase hphase, run_of_phase hphase]
    · rw [List.cons_append, run.eq_def, run.eq_def _ _ s (piece :: taken), if_neg hphase,
        if_neg hphase]
      cases listener (told ++ [s.phase]) with
      | some reason => rfl
      | none =>
        cases hline : decodeLine? piece with
        | none => simp only [hline]
        | some text =>
          simp only [hline]
          cases hstep : s.step text with
          | error e => rfl
          | ok r =>
            have hfeed : s.feed text = .ok r.1 := by
              rw [feed, hstep]
              rfl
            refine congrArg (Run.after r.2) (ih ?_ _)
            intro texts s' htexts hs'
            exact hdecided (text :: texts) s' (.cons (decodeLine?_eq_some_iff.1 hline) htexts)
              (feedAll_cons_eq_ok_iff.2 ⟨r.1, hfeed, hs'⟩)

/-! ## Outcomes -/

/-- From any point on that accepted lines have led to, a run has an outcome of all the lines. -/
theorem outcome_run {taken : List (List UInt8)} {texts : List String} {s : Session}
    (htexts : List.Forall₂ Encodes texts taken) (hfeed : new.feedAll texts = .ok s)
    (told : List Phase) (pieces : List (List UInt8)) :
    Outcome (taken ++ pieces.map stripLineEnd) (s.run .silent told pieces).result := by
  induction pieces generalizing taken texts s told with
  | nil =>
    rw [result_run_nil]
    exact .finished rfl htexts hfeed (.inr rfl)
  | cons piece pieces ih =>
    by_cases hphase : s.phase = .assembled
    · rw [result_run_of_phase hphase]
      exact .finished rfl htexts hfeed (.inl hphase)
    · cases hline : decodeLine? piece with
      | none =>
        rw [result_run_undecodable hphase hline]
        exact .undecodable rfl htexts hfeed hphase (decodeLine?_eq_none_iff.1 hline)
      | some text =>
        have htext : Encodes text (stripLineEnd piece) := decodeLine?_eq_some_iff.1 hline
        rw [result_run_cons hphase hline]
        cases hstep : s.feed text with
        | error e => exact .rejected rfl htexts hfeed htext hstep
        | ok s' =>
          have htaken : List.Forall₂ Encodes (texts ++ [text]) (taken ++ [stripLineEnd piece]) :=
            List.rel_append htexts (.cons htext .nil)
          have hfeed' : new.feedAll (texts ++ [text]) = .ok s' := by
            rw [feedAll_append, hfeed]
            exact feedAll_cons_eq_ok_iff.2 ⟨s', hstep, rfl⟩
          have := ih htaken hfeed' (told ++ [s.phase])
          rwa [List.append_assoc] at this

/-- The outcome of the lines is what the run comes to. -/
theorem result_run_of_outcome {pieces : List (List UInt8)} {result : Except CompileError Model}
    (h : Outcome (pieces.map stripLineEnd) result) :
    (new.run .silent [] pieces).result = result := by
  cases h with
  | @finished taken rest texts s hsplit htexts hfeed hend =>
    obtain ⟨pieces₁, pieces₂, rfl, rfl, rfl⟩ := List.map_eq_append_iff.1 hsplit
    rw [result_run_append htexts hfeed]
    rcases hend with hphase | hnil
    · exact result_run_of_phase hphase _ _
    · rw [List.map_eq_nil_iff.1 hnil, result_run_nil]
  | @undecodable taken rest line texts s hsplit htexts hfeed hphase hline =>
    obtain ⟨pieces₁, pieces₂, rfl, rfl, hrest⟩ := List.map_eq_append_iff.1 hsplit
    obtain ⟨piece, pieces₃, rfl, rfl, -⟩ := List.map_eq_cons_iff.1 hrest
    rw [result_run_append htexts hfeed]
    exact result_run_undecodable hphase (decodeLine?_eq_none_iff.2 hline) _ _
  | @rejected taken rest line texts s text e hsplit htexts hfeed hline herror =>
    obtain ⟨pieces₁, pieces₂, rfl, rfl, hrest⟩ := List.map_eq_append_iff.1 hsplit
    obtain ⟨piece, pieces₃, rfl, rfl, -⟩ := List.map_eq_cons_iff.1 hrest
    rw [result_run_append htexts hfeed,
      result_run_cons (phase_ne_of_feed_error herror) (decodeLine?_eq_some_iff.2 hline), herror]
    rfl

end Session

variable {bytes : List UInt8} {lines : List (List UInt8)}

/-- A compilation has exactly the outcome of the lines. -/
theorem outcome_iff (h : LinesOf lineFeed carriageReturn bytes lines)
    {result : Except CompileError Model} :
    (compile bytes).result = result ↔ Outcome lines result := by
  rw [linesOf_bytes_iff] at h
  subst h
  constructor
  · rintro rfl
    exact Session.outcome_run .nil rfl [] (cutLines bytes)
  · exact Session.result_run_of_outcome

/-- A line that is no text is an error exactly when it is reached. -/
theorem result_eq_invalidText_iff (h : LinesOf lineFeed carriageReturn bytes lines) :
    (compile bytes).result = .error .invalidText ↔
      ∃ taken line rest texts s, lines = taken ++ line :: rest ∧
        List.Forall₂ Encodes texts taken ∧ Session.new.feedAll texts = .ok s ∧
        s.phase ≠ .assembled ∧ ∀ text, ¬ Encodes text line := by
  rw [outcome_iff h]
  constructor
  · intro houtcome
    generalize hresult : (.error .invalidText : Except CompileError Model) = result at houtcome
    cases houtcome with
    | @finished taken rest texts s => exact absurd hresult.symm s.finish_ne_invalidText
    | @undecodable taken rest line texts s hsplit htexts hfeed hphase hline =>
      exact ⟨taken, line, rest, texts, s, hsplit, htexts, hfeed, hphase, hline⟩
    | @rejected taken rest line texts s text e hsplit htexts hfeed hline herror =>
      cases hresult
      exact absurd herror (s.feed_ne_invalidText text)
  · rintro ⟨taken, line, rest, texts, s, hsplit, htexts, hfeed, hphase, hline⟩
    exact .undecodable hsplit htexts hfeed hphase hline

/-- The lines that are decoded and taken by a session decide what a text compiles to. -/
theorem result_compileText {text : String} {lines : List (List Char)}
    (h : LinesOf '\n' '\r' text.toList lines) :
    (compileText text).result = Session.new.readAll (lines.map String.ofList) := by
  have hbytes := (linesOf_encode h).map_stripLineEnd
  rw [compileText, compile, compileWith_ofBytes, toList_toByteArray]
  refine Session.result_run ?_ _ _
  rw [List.forall₂_map_right_iff]
  have hlines : List.Forall₂ (fun bytes line => encode line = bytes)
      ((cutLines (encode text.toList)).map stripLineEnd) lines := by
    rw [hbytes, List.forall₂_map_left_iff, List.forall₂_same]
    intro line _
    rfl
  rw [List.forall₂_map_left_iff] at hlines
  refine hlines.imp ?_
  intro piece line hline
  rw [decodeLine?_eq_some_iff, String.toList_ofList, hline]

/-- **A stream compiles to what its lines come to.** A line that is no text is an error exactly
    when all lines before it are accepted and do not complete the problem. The bytes after a line
    end do not matter unless all lines up to there are texts, are accepted and leave the problem
    incomplete. For the bytes of a text this is the same as giving all lines of the text to a
    session. -/
theorem compile_stream :
    (∀ bytes : List UInt8, ∃ lines, LinesOf lineFeed carriageReturn bytes lines) ∧
    (∀ (bytes : List UInt8) (lines : List (List UInt8)),
      LinesOf lineFeed carriageReturn bytes lines →
        (∀ result, (compile bytes).result = result ↔ Outcome lines result) ∧
        ((compile bytes).result = .error .invalidText ↔
          ∃ taken line rest texts s, lines = taken ++ line :: rest ∧
            List.Forall₂ Encodes texts taken ∧ Session.new.feedAll texts = .ok s ∧
            s.phase ≠ .assembled ∧ ∀ text, ¬ Encodes text line) ∧
        (bytes.getLast? = some lineFeed →
          (∀ texts s, List.Forall₂ Encodes texts lines → Session.new.feedAll texts = .ok s →
            s.phase = .assembled) →
          ∀ more : List UInt8, compile (bytes ++ more) = compile bytes)) ∧
    (∀ text : String, ∃ lines, LinesOf '\n' '\r' text.toList lines) ∧
    ∀ (text : String) (bytes : List UInt8) (lines : List (List Char)), Encodes text bytes →
      LinesOf '\n' '\r' text.toList lines →
        compile bytes = compileText text ∧
        (compile bytes).result = Session.new.readAll (lines.map String.ofList) := by
  refine ⟨exists_linesOf _ _, ?_, ?_, ?_⟩
  · intro bytes lines h
    refine ⟨fun result => outcome_iff h, result_eq_invalidText_iff h, ?_⟩
    intro hlast hdecided more
    rw [← linesOf_bytes_iff.1 h] at hdecided
    rw [compile, compileWith_ofBytes, compile, compileWith_ofBytes,
      cutLines_append_of_getLast? hlast]
    exact Session.run_append hdecided .silent [] (cutLines more)
  · intro text
    exact exists_linesOf _ _ text.toList
  · rintro text bytes lines rfl h
    have htext : compile (encode text.toList) = compileText text := by
      rw [compileText, toList_toByteArray]
    exact ⟨htext, htext ▸ result_compileText h⟩

end LinProg
