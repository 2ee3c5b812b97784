import LinProg.Proofs.Session.Stream

set_option autoImplicit false

/-! # What a listener is told

A compilation tells its listener the phase before each line. `Waits` says without a run which
session is waiting for a line after so many lines of a stream, and the phases that are told are
those of the waiting sessions, in order (`getElem?_told_iff`). From this follow how many calls there
are (`length_told`) and that the phases only ever go forward (`pairwise_told`).

A listener that refuses cuts this short. A run with it is compared with the run of the silent
listener on the same pieces: it is the same run up to the first refusal and ends there
(`isCut_run`), so that the lines which would have been read next do not matter
(`run_congr_of_failsAt`). -/

namespace LinProg

open Text

/-! ## Sessions that wait for a line -/

namespace Session

/-- The first `i` of some lines are texts that lead a session to another one, which waits for a line
    because its problem is not complete. -/
def Waits (s : Session) (lines : List (List UInt8)) (i : Nat) (t : Session) : Prop :=
  i ≤ lines.length ∧ t.phase ≠ .assembled ∧
    ∃ texts, List.Forall₂ Encodes texts (lines.take i) ∧ s.feedAll texts = .ok t

theorem waits_zero {s t : Session} {lines : List (List UInt8)} :
    s.Waits lines 0 t ↔ t = s ∧ s.phase ≠ .assembled := by
  constructor
  · rintro ⟨-, hphase, texts, htexts, hfeed⟩
    rw [List.take_zero, List.forall₂_nil_right_iff] at htexts
    subst htexts
    cases hfeed
    exact ⟨rfl, hphase⟩
  · rintro ⟨rfl, hphase⟩
    exact ⟨Nat.zero_le _, hphase, [], .nil, rfl⟩

theorem not_waits_nil_succ {s t : Session} {i : Nat} : ¬ s.Waits [] (i + 1) t := by
  rintro ⟨hle, -⟩
  simp at hle

theorem waits_cons_succ {s t : Session} {line : List UInt8} {lines : List (List UInt8)} {i : Nat} :
    s.Waits (line :: lines) (i + 1) t ↔
      ∃ text s', Encodes text line ∧ s.feed text = .ok s' ∧ s'.Waits lines i t := by
  constructor
  · rintro ⟨hle, hphase, texts, htexts, hfeed⟩
    rw [List.take_succ_cons] at htexts
    cases htexts with
    | @cons text _ texts _ htext htexts =>
      obtain ⟨s', hs', hrest⟩ := feedAll_cons_eq_ok_iff.1 hfeed
      exact ⟨text, s', htext, hs', Nat.le_of_succ_le_succ hle, hphase, texts, htexts, hrest⟩
  · rintro ⟨text, s', htext, hs', hle, hphase, texts, htexts, hrest⟩
    exact ⟨Nat.succ_le_succ hle, hphase, text :: texts, .cons htext htexts,
      feedAll_cons_eq_ok_iff.2 ⟨s', hs', hrest⟩⟩

/-- A session with its model waits for nothing. -/
theorem not_waits_of_phase {s t : Session} (h : s.phase = .assembled) {lines : List (List UInt8)}
    {i : Nat} : ¬ s.Waits lines i t := by
  rintro ⟨-, hphase, texts, -, hfeed⟩
  exact hphase (finish_of_feedAll h hfeed).1

end Session

theorem encodes_stripLineEnd_iff {text : String} {piece : List UInt8} :
    Encodes text (stripLineEnd piece) ↔ decodeLine? piece = some text :=
  decodeLine?_eq_some_iff.symm

theorem Encodes.unique {text text' : String} {bytes : List UInt8} (h : Encodes text bytes)
    (h' : Encodes text' bytes) : text = text' :=
  Option.some.inj ((fromUTF8?_eq_some_iff.2 h).symm.trans (fromUTF8?_eq_some_iff.2 h'))

namespace Session

/-- Of two waiting sessions the later one is in no earlier phase. -/
theorem Waits.rank_le {s t u : Session} {lines : List (List UInt8)} {i j : Nat}
    (ht : s.Waits lines i t) (hu : s.Waits lines j u) (hij : i ≤ j) :
    t.phase.rank ≤ u.phase.rank := by
  induction lines generalizing s i j with
  | nil =>
    obtain ⟨texts, htexts, hfeed⟩ := hu.2.2
    rw [List.take_nil, List.forall₂_nil_right_iff] at htexts
    subst htexts
    obtain rfl : i = 0 := by simpa using ht.1
    obtain ⟨rfl, -⟩ := waits_zero.1 ht
    exact rank_le_of_feedAll hfeed
  | cons line lines ih =>
    cases i with
    | zero =>
      obtain ⟨rfl, -⟩ := waits_zero.1 ht
      obtain ⟨texts, -, hfeed⟩ := hu.2.2
      exact rank_le_of_feedAll hfeed
    | succ i =>
      obtain ⟨j, rfl⟩ := Nat.exists_eq_add_of_le' (Nat.le_trans (Nat.succ_pos i) hij)
      obtain ⟨text, s', htext, hs', ht'⟩ := waits_cons_succ.1 ht
      obtain ⟨text', s'', htext', hs'', hu'⟩ := waits_cons_succ.1 hu
      obtain rfl := htext.unique htext'
      rw [hs'] at hs''
      cases hs''
      exact ih ht' hu' (Nat.le_of_succ_le_succ hij)

/-! ## One line of a run -/

theorem told_conclude (s : Session) (told : List Phase) : (s.conclude told).told = told := by
  rw [conclude]
  cases s.close with
  | error e => rfl
  | ok done => rfl

section Step

variable {s : Session} (hphase : s.phase ≠ .assembled) {listener : Listener} {told : List Phase}
  {fault? : Option String}

include hphase

/-- A refusal ends the run, whatever the line would have been. -/
theorem run_of_refusal {reason : String} (hrefuses : listener (told ++ [s.phase]) = some reason)
    (pieces : List (List UInt8)) :
    s.run listener told pieces fault? =
      ⟨told ++ [s.phase], [], .error (.unreadable reason)⟩ := by
  rw [run.eq_def, if_neg hphase]
  simp only [hrefuses]

variable (haccepts : listener (told ++ [s.phase]) = none)

include haccepts

theorem run_nil : s.run listener told [] = s.conclude (told ++ [s.phase]) := by
  rw [run, if_neg hphase]
  simp only [haccepts]

theorem run_nil_of_fault (reason : String) :
    s.run listener told [] (some reason) =
      ⟨told ++ [s.phase], [], .error (.unreadable reason)⟩ := by
  rw [run, if_neg hphase]
  simp only [haccepts]

variable {piece : List UInt8} (pieces : List (List UInt8))

theorem run_of_undecodable (hline : decodeLine? piece = none) :
    s.run listener told (piece :: pieces) fault? =
      ⟨told ++ [s.phase], [], .error .invalidText⟩ := by
  rw [run, if_neg hphase]
  simp only [haccepts, hline]

variable {line : String} (hline : decodeLine? piece = some line)

include hline

theorem run_of_rejected {e : CompileError} (hstep : s.step line = .error e) :
    s.run listener told (piece :: pieces) fault? = ⟨told ++ [s.phase], [], .error e⟩ := by
  rw [run, if_neg hphase]
  simp only [haccepts, hline, hstep]

theorem run_of_taken {s' : Session} {messages : List Message}
    (hstep : s.step line = .ok (s', messages)) :
    s.run listener told (piece :: pieces) fault? =
      (s'.run listener (told ++ [s.phase]) pieces fault?).after messages := by
  rw [run, if_neg hphase]
  simp only [haccepts, hline, hstep]

end Step

/-! ## What is told -/

/-- What was told before stays told. -/
theorem told_prefix_run (listener : Listener) (s : Session) (told : List Phase)
    (pieces : List (List UInt8)) (fault? : Option String) :
    told <+: (s.run listener told pieces fault?).told := by
  fun_induction run listener told s pieces fault? with
  | case1 pieces told s hphase => exact (told_conclude s told).symm ▸ List.prefix_rfl
  | case2 pieces told s hphase reason hrefuses => exact List.prefix_append _ _
  | case3 told s hphase haccepts reason hfault => exact List.prefix_append _ _
  | case4 told s hphase haccepts hfault =>
    rw [told_conclude]
    exact List.prefix_append _ _
  | case5 told s hphase haccepts piece pieces hline => exact List.prefix_append _ _
  | case6 told s hphase haccepts piece pieces line hline e hstep => exact List.prefix_append _ _
  | case7 told s hphase haccepts piece pieces line hline s' messages hstep ih =>
    exact (List.prefix_append _ _).trans ih

/-- A session that is not complete tells its phase next. -/
theorem told_append_phase_prefix_run (listener : Listener) {s : Session}
    (hphase : s.phase ≠ .assembled) (told : List Phase) (pieces : List (List UInt8))
    (fault? : Option String) :
    told ++ [s.phase] <+: (s.run listener told pieces fault?).told := by
  fun_cases run listener told s pieces fault? with
  | case1 pieces fault? hassembled => exact absurd hassembled hphase
  | case2 pieces fault? hphase reason hrefuses => exact List.prefix_rfl
  | case3 hphase haccepts reason => exact List.prefix_rfl
  | case4 hphase haccepts => exact (told_conclude s (told ++ [s.phase])).symm ▸ List.prefix_rfl
  | case5 fault? hphase haccepts piece pieces hline => exact List.prefix_rfl
  | case6 fault? hphase haccepts piece pieces line hline e hstep => exact List.prefix_rfl
  | case7 fault? hphase haccepts piece pieces line hline s' messages hstep =>
    exact told_prefix_run listener s' (told ++ [s.phase]) pieces fault?

theorem getElem?_append_phase (told : List Phase) (phase : Phase) (i : Nat) :
    (told ++ [phase])[told.length + (i + 1)]? = none :=
  List.getElem?_eq_none (by simp)

section Told

variable {s : Session} (told : List Phase) (pieces : List (List UInt8)) {phase : Phase}

theorem getElem?_told_of_phase (hphase : s.phase = .assembled) (i : Nat) :
    (s.run .silent told pieces).told[told.length + i]? = some phase ↔
      ∃ t, s.Waits (pieces.map stripLineEnd) i t ∧ t.phase = phase := by
  rw [run_of_phase hphase, told_conclude, List.getElem?_eq_none (Nat.le_add_right _ _)]
  simp [not_waits_of_phase hphase]

theorem getElem?_told_zero (hphase : s.phase ≠ .assembled) :
    (s.run .silent told pieces).told[told.length + 0]? = some phase ↔
      ∃ t, s.Waits (pieces.map stripLineEnd) 0 t ∧ t.phase = phase := by
  have hprefix := told_append_phase_prefix_run .silent hphase told pieces none
  have hget := List.prefix_iff_getElem?.1 hprefix told.length (by simp)
  rw [Nat.add_zero, hget, List.getElem_concat_length rfl]
  simp [waits_zero, hphase, eq_comm]

/-- The phases that are told from some point of a run on are those of the sessions that wait. -/
theorem getElem?_told_run (i : Nat) :
    (s.run .silent told pieces).told[told.length + i]? = some phase ↔
      ∃ t, s.Waits (pieces.map stripLineEnd) i t ∧ t.phase = phase := by
  induction pieces generalizing s told i with
  | nil =>
    by_cases hphase : s.phase = .assembled
    · exact getElem?_told_of_phase told [] hphase i
    · cases i with
      | zero => exact getElem?_told_zero told [] hphase
      | succ i =>
        rw [run_nil hphase rfl, told_conclude, getElem?_append_phase]
        simp [not_waits_nil_succ]
  | cons piece pieces ih =>
    by_cases hphase : s.phase = .assembled
    · exact getElem?_told_of_phase told (piece :: pieces) hphase i
    · cases i with
      | zero => exact getElem?_told_zero told (piece :: pieces) hphase
      | succ i =>
        rw [List.map_cons]
        simp only [waits_cons_succ, encodes_stripLineEnd_iff]
        cases hline : decodeLine? piece with
        | none =>
          rw [run_of_undecodable hphase rfl pieces hline, getElem?_append_phase]
          simp
        | some line =>
          cases hstep : s.step line with
          | error e =>
            rw [run_of_rejected hphase rfl pieces hline hstep, getElem?_append_phase]
            simp [feed, hstep, Except.map]
          | ok r =>
            have hlength : told.length + (i + 1) = (told ++ [s.phase]).length + i := by
              rw [List.length_append, List.length_singleton]
              omega
            rw [run_of_taken hphase rfl pieces hline hstep, Run.after, hlength, ih]
            simp [feed, hstep, Except.map]

end Told

/-! ## Acceptance -/

/-- What a session that is not complete tells is accepted. -/
theorem accepts_phase {listener : Listener} {s : Session} {told : List Phase}
    {pieces : List (List UInt8)} {fault? : Option String} (hphase : s.phase ≠ .assembled)
    (h : ∀ heard, heard ≠ [] → heard <+: (s.run .silent told pieces fault?).told →
      listener heard = none) : listener (told ++ [s.phase]) = none :=
  h _ (by simp) (told_append_phase_prefix_run .silent hphase told pieces fault?)

/-- A listener that refuses nothing it is told in a silent run has no influence on it. -/
theorem run_of_accepts {listener : Listener} {s : Session} {told : List Phase}
    {pieces : List (List UInt8)} {fault? : Option String}
    (h : ∀ heard, heard ≠ [] → heard <+: (s.run .silent told pieces fault?).told →
      listener heard = none) :
    s.run listener told pieces fault? = s.run .silent told pieces fault? := by
  induction pieces generalizing s told with
  | nil =>
    by_cases hphase : s.phase = .assembled
    · rw [run_of_phase hphase, run_of_phase hphase]
    · have haccepts := accepts_phase hphase h
      cases fault? with
      | none => rw [run_nil hphase haccepts, run_nil hphase rfl]
      | some reason => rw [run_nil_of_fault hphase haccepts, run_nil_of_fault hphase rfl]
  | cons piece pieces ih =>
    by_cases hphase : s.phase = .assembled
    · rw [run_of_phase hphase, run_of_phase hphase]
    · have haccepts := accepts_phase hphase h
      cases hline : decodeLine? piece with
      | none =>
        rw [run_of_undecodable hphase haccepts pieces hline,
          run_of_undecodable hphase rfl pieces hline]
      | some line =>
        cases hstep : s.step line with
        | error e =>
          rw [run_of_rejected hphase haccepts pieces hline hstep,
            run_of_rejected hphase rfl pieces hline hstep]
        | ok r =>
          rw [run_of_taken hphase rfl pieces hline hstep, Run.after] at h
          rw [run_of_taken hphase haccepts pieces hline hstep,
            run_of_taken hphase rfl pieces hline hstep, ih h]

end Session

/-! ## Refusals -/

/-- Told the given phases one by one, a listener refuses at its `n`-th call, counted from one, and
    at none before. It need not get that far. -/
structure Listener.FailsAt (listener : Listener) (n : Nat) (reason : String) (told : List Phase) :
    Prop where
  accepts : ∀ k, 0 < k → k < n → k ≤ told.length → listener (told.take k) = none
  refuses : n ≤ told.length → listener (told.take n) = some reason

theorem Listener.refusingAt_failsAt (n : Nat) (reason : String) (told : List Phase) :
    (refusingAt n reason).FailsAt n reason told := by
  constructor
  · intro k _ hk hle
    rw [refusingAt, List.length_take_of_le hle, if_neg (Nat.ne_of_lt hk)]
  · intro hle
    rw [refusingAt, List.length_take_of_le hle, if_pos rfl]

/-- A run is another one that a refusal cut short at the `n`-th call, if the other one has so
    many. -/
structure Run.IsCut (r full : Run) (n : Nat) (reason : String) : Prop where
  cut : n ≤ full.told.length →
    r.told = full.told.take n ∧ r.result = .error (.unreadable reason)
  whole : full.told.length < n → r = full

theorem Run.IsCut.of_length_lt {r : Run} {n : Nat} {reason : String} (h : r.told.length < n) :
    r.IsCut r n reason :=
  ⟨fun hle => absurd hle (Nat.not_le_of_lt h), fun _ => rfl⟩

theorem Run.IsCut.after {r full : Run} {n : Nat} {reason : String} (h : r.IsCut full n reason)
    (messages : List Message) : (r.after messages).IsCut (full.after messages) n reason :=
  ⟨h.cut, fun hlt => congrArg (Run.after messages) (h.whole hlt)⟩

namespace Session

section Refusals

variable {s : Session} {told : List Phase} {pieces : List (List UInt8)} {listener : Listener}
  {n : Nat} {reason : String}

/-- The first call of a run tells what the silent run tells first. -/
theorem take_told_run (hphase : s.phase ≠ .assembled) :
    (s.run .silent told pieces).told.take (told.length + 1) = told ++ [s.phase] := by
  have hprefix := told_append_phase_prefix_run .silent hphase told pieces none
  rw [List.prefix_iff_eq_take.1 hprefix, List.length_append, List.length_singleton]

theorem lt_length_told_run (hphase : s.phase ≠ .assembled) :
    told.length < (s.run .silent told pieces).told.length := by
  have hle := (told_append_phase_prefix_run .silent hphase told pieces none).length_le
  rwa [List.length_append, List.length_singleton] at hle

/-- A listener that fails at the next call refuses it, and one that fails later accepts it. -/
theorem refuses_or_accepts (hphase : s.phase ≠ .assembled) (hn : told.length < n)
    (h : listener.FailsAt n reason (s.run .silent told pieces).told) :
    (n = told.length + 1 ∧ listener (told ++ [s.phase]) = some reason) ∨
      ((told ++ [s.phase]).length < n ∧ listener (told ++ [s.phase]) = none) := by
  have hlt : told.length + 1 ≤ (s.run .silent told pieces).told.length := lt_length_told_run hphase
  have htake : (s.run .silent told pieces).told.take (told.length + 1) = told ++ [s.phase] :=
    take_told_run hphase
  rw [← htake]
  rcases Nat.eq_or_lt_of_le (Nat.succ_le_of_lt hn) with rfl | hlater
  · exact .inl ⟨rfl, h.refuses hlt⟩
  · refine .inr ⟨?_, h.accepts _ (Nat.succ_pos _) hlater hlt⟩
    rwa [List.length_take_of_le hlt]

theorem isCut_run_of_refusal (hphase : s.phase ≠ .assembled)
    (hrefuses : listener (told ++ [s.phase]) = some reason) (pieces : List (List UInt8)) :
    (s.run listener told pieces).IsCut (s.run .silent told pieces) (told.length + 1) reason := by
  rw [run_of_refusal hphase hrefuses]
  constructor
  · intro _
    exact ⟨(take_told_run hphase).symm, rfl⟩
  · intro hlt
    exact absurd (lt_length_told_run hphase) (Nat.not_lt_of_le (Nat.le_of_lt_succ hlt))

/-- A listener that fails at a call cuts the run there. -/
theorem isCut_run (hn : told.length < n)
    (h : listener.FailsAt n reason (s.run .silent told pieces).told) :
    (s.run listener told pieces).IsCut (s.run .silent told pieces) n reason := by
  induction pieces generalizing s told with
  | nil =>
    by_cases hphase : s.phase = .assembled
    · rw [run_of_phase hphase, run_of_phase hphase]
      exact .of_length_lt (by rwa [told_conclude])
    · rcases refuses_or_accepts hphase hn h with ⟨rfl, hrefuses⟩ | ⟨hlater, haccepts⟩
      · exact isCut_run_of_refusal hphase hrefuses []
      · rw [run_nil hphase haccepts, run_nil hphase rfl]
        exact .of_length_lt (by rwa [told_conclude])
  | cons piece pieces ih =>
    by_cases hphase : s.phase = .assembled
    · rw [run_of_phase hphase, run_of_phase hphase]
      exact .of_length_lt (by rwa [told_conclude])
    · rcases refuses_or_accepts hphase hn h with ⟨rfl, hrefuses⟩ | ⟨hlater, haccepts⟩
      · exact isCut_run_of_refusal hphase hrefuses (piece :: pieces)
      · cases hline : decodeLine? piece with
        | none =>
          rw [run_of_undecodable hphase haccepts pieces hline,
            run_of_undecodable hphase rfl pieces hline]
          exact .of_length_lt hlater
        | some line =>
          cases hstep : s.step line with
          | error e =>
            rw [run_of_rejected hphase haccepts pieces hline hstep,
              run_of_rejected hphase rfl pieces hline hstep]
            exact .of_length_lt hlater
          | ok r =>
            have hsilent : s.run .silent told (piece :: pieces) =
                (r.1.run .silent (told ++ [s.phase]) pieces).after r.2 :=
              run_of_taken hphase rfl pieces hline hstep
            rw [hsilent] at h
            rw [hsilent, run_of_taken hphase haccepts pieces hline hstep]
            exact (ih hlater h).after r.2

/-- A run that is cut short does not depend on the lines that it did not come to. -/
theorem run_congr_of_failsAt {m : Nat} {pieces' : List (List UInt8)}
    (hle : told.length + 1 + m ≤ (s.run .silent told pieces).told.length)
    (h : listener.FailsAt (told.length + 1 + m) reason (s.run .silent told pieces).told)
    (hlines : (pieces'.map stripLineEnd).take m = (pieces.map stripLineEnd).take m) :
    s.run listener told pieces' = s.run listener told pieces := by
  induction m generalizing s told pieces pieces' with
  | zero =>
    have hphase : s.phase ≠ .assembled := by
      intro hassembled
      rw [run_of_phase hassembled, told_conclude] at hle
      omega
    rcases refuses_or_accepts hphase (Nat.lt_succ_self _) h with ⟨-, hrefuses⟩ | ⟨hlater, -⟩
    · rw [run_of_refusal hphase hrefuses, run_of_refusal hphase hrefuses]
    · simp at hlater
  | succ m ih =>
    have hphase : s.phase ≠ .assembled := by
      intro hassembled
      rw [run_of_phase hassembled, told_conclude] at hle
      omega
    rcases refuses_or_accepts hphase (by omega) h with ⟨hnow, -⟩ | ⟨-, haccepts⟩
    · omega
    · cases pieces with
      | nil =>
        obtain rfl : pieces' = [] := by simpa using hlines
        rfl
      | cons piece pieces =>
        cases pieces' with
        | nil => simp at hlines
        | cons piece' pieces' =>
          simp only [List.map_cons, List.take_succ_cons, List.cons.injEq] at hlines
          obtain ⟨hpiece, hlines⟩ := hlines
          have hdecode : decodeLine? piece' = decodeLine? piece := by
            rw [decodeLine?, decodeLine?, hpiece]
          cases hline : decodeLine? piece with
          | none =>
            rw [run_of_undecodable hphase haccepts pieces hline,
              run_of_undecodable hphase haccepts pieces' (hdecode.trans hline)]
          | some line =>
            cases hstep : s.step line with
            | error e =>
              rw [run_of_rejected hphase haccepts pieces hline hstep,
                run_of_rejected hphase haccepts pieces' (hdecode.trans hline) hstep]
            | ok r =>
              have hsilent : s.run .silent told (piece :: pieces) =
                  (r.1.run .silent (told ++ [s.phase]) pieces).after r.2 :=
                run_of_taken hphase rfl pieces hline hstep
              have hnext : (told ++ [s.phase]).length + 1 + m = told.length + 1 + (m + 1) := by
                rw [List.length_append, List.length_singleton]
                omega
              rw [hsilent, ← hnext] at hle h
              rw [run_of_taken hphase haccepts pieces hline hstep,
                run_of_taken hphase haccepts pieces' (hdecode.trans hline) hstep,
                ih hle h hlines]

end Refusals

end Session

/-! ## Compilations -/

/-- A compilation takes so many of the lines: those before which a session waits. -/
def TakesLines (lines : List (List UInt8)) (taken : Nat) : Prop :=
  ∀ i, i < taken ↔ i < lines.length ∧ ∃ s, Session.new.Waits lines i s

/-- The lines end while a session waits for one. -/
def EndsWaiting (lines : List (List UInt8)) : Prop :=
  ∃ s, Session.new.Waits lines lines.length s

section Compilation

variable {bytes : List UInt8} {lines : List (List UInt8)}

/-- The phases that a compilation tells are those of the sessions that wait. -/
theorem getElem?_told_iff (h : LinesOf lineFeed carriageReturn bytes lines) (i : Nat)
    {phase : Phase} :
    (compile bytes).told[i]? = some phase ↔
      ∃ t, Session.new.Waits lines i t ∧ t.phase = phase := by
  have hrun : (compile bytes).told[[].length + i]? = some phase ↔ _ :=
    Session.getElem?_told_run [] (cutLines bytes) i
  rwa [List.length_nil, Nat.zero_add, linesOf_bytes_iff.1 h] at hrun

theorem lt_length_told_iff (h : LinesOf lineFeed carriageReturn bytes lines) (i : Nat) :
    i < (compile bytes).told.length ↔ ∃ t, Session.new.Waits lines i t := by
  constructor
  · intro hi
    obtain ⟨t, hwaits, -⟩ := (getElem?_told_iff h i).1 (List.getElem?_eq_getElem hi)
    exact ⟨t, hwaits⟩
  · rintro ⟨t, hwaits⟩
    exact (List.getElem?_eq_some_iff.1 ((getElem?_told_iff h i).2 ⟨t, hwaits, rfl⟩)).1

/-- There is one call for each line that is taken, and one more if the stream ends while a session
    waits. -/
theorem length_told (h : LinesOf lineFeed carriageReturn bytes lines) :
    ∃ taken, TakesLines lines taken ∧
      (EndsWaiting lines → (compile bytes).told.length = taken + 1) ∧
      (¬ EndsWaiting lines → (compile bytes).told.length = taken) := by
  have hle : (compile bytes).told.length ≤ lines.length + 1 := by
    by_contra hlt
    obtain ⟨t, hwaits, -⟩ := (lt_length_told_iff h (lines.length + 1)).1 (Nat.not_le.1 hlt)
    omega
  refine ⟨min lines.length (compile bytes).told.length, ?_, ?_, ?_⟩
  · intro i
    rw [Nat.lt_min, lt_length_told_iff h]
  · intro hwaits
    have hlt := (lt_length_told_iff h lines.length).2 hwaits
    omega
  · intro hwaits
    have hlt := mt (lt_length_told_iff h lines.length).1 hwaits
    omega

/-- The phases only ever go forward. -/
theorem pairwise_told (h : LinesOf lineFeed carriageReturn bytes lines) :
    (compile bytes).told.Pairwise fun before after => before.rank ≤ after.rank := by
  rw [List.pairwise_iff_getElem]
  intro i j hi hj hij
  obtain ⟨s, hs, hbefore⟩ := (getElem?_told_iff h i).1 (List.getElem?_eq_getElem hi)
  obtain ⟨t, ht, hafter⟩ := (getElem?_told_iff h j).1 (List.getElem?_eq_getElem hj)
  rw [← hbefore, ← hafter]
  exact hs.rank_le ht (Nat.le_of_lt hij)

theorem assembled_not_mem_told (h : LinesOf lineFeed carriageReturn bytes lines) :
    .assembled ∉ (compile bytes).told := by
  intro hmem
  obtain ⟨i, hi⟩ := List.mem_iff_getElem?.1 hmem
  obtain ⟨t, ⟨-, hphase, -⟩, hassembled⟩ := (getElem?_told_iff h i).1 hi
  exact hphase hassembled

/-- A listener that accepts everything it is told changes nothing. -/
theorem compileWith_of_accepts {listener : Listener} {input : Input}
    (h : ∀ told, told ≠ [] → told <+: (compile input).told → listener told = none) :
    compileWith listener input = compile input :=
  Session.run_of_accepts h

/-- A listener that fails at a call cuts the compilation there. -/
theorem isCut_compileWith {listener : Listener} {n : Nat} {reason : String} (hn : 0 < n)
    (h : listener.FailsAt n reason (compile bytes).told) :
    (compileWith listener bytes).IsCut (compile bytes) n reason :=
  Session.isCut_run hn h

/-- The lines from the failing call on do not matter. -/
theorem compileWith_congr {listener : Listener} {n : Nat} {reason : String} (hn : 0 < n)
    (hle : n ≤ (compile bytes).told.length)
    (h : listener.FailsAt n reason (compile bytes).told)
    (hlines : LinesOf lineFeed carriageReturn bytes lines) {bytes' : List UInt8}
    {lines' : List (List UInt8)} (hlines' : LinesOf lineFeed carriageReturn bytes' lines')
    (hsame : lines'.take (n - 1) = lines.take (n - 1)) :
    compileWith listener bytes' = compileWith listener bytes := by
  obtain ⟨m, rfl⟩ := Nat.exists_eq_add_of_le hn
  rw [Nat.add_sub_cancel_left, ← linesOf_bytes_iff.1 hlines,
    ← linesOf_bytes_iff.1 hlines'] at hsame
  exact Session.run_congr_of_failsAt hle h hsame

end Compilation

/-- **A listener is told the phase before each line.** The phases that a compilation tells are, in
    order, those of the sessions that wait for a line, as many as lines are taken and one more if
    the stream ends before the problem is complete; they only go forward and never reach the
    assembled phase. A listener that accepts all of them changes nothing. One that fails at the
    `n`-th call has been told the first `n` phases, its reason is the result, and the lines from the
    `n`-th on do not matter; if there are fewer calls it changes nothing either. -/
theorem compileWith_tells_phases (bytes : List UInt8) :
    ∃ lines, LinesOf lineFeed carriageReturn bytes lines ∧
      (∀ (i : Nat) (phase : Phase), (compile bytes).told[i]? = some phase ↔
        ∃ s, Session.new.Waits lines i s ∧ s.phase = phase) ∧
      (∃ taken, TakesLines lines taken ∧
        (EndsWaiting lines → (compile bytes).told.length = taken + 1) ∧
        (¬ EndsWaiting lines → (compile bytes).told.length = taken)) ∧
      ((compile bytes).told.Pairwise fun before after => before.rank ≤ after.rank) ∧
      .assembled ∉ (compile bytes).told ∧
      (∀ listener : Listener,
        (∀ k, 0 < k → k ≤ (compile bytes).told.length →
          listener ((compile bytes).told.take k) = none) →
        compileWith listener bytes = compile bytes) ∧
      (∀ (n : Nat) (reason : String),
        (Listener.refusingAt n reason).FailsAt n reason (compile bytes).told) ∧
      ∀ (listener : Listener) (n : Nat) (reason : String), 0 < n →
        listener.FailsAt n reason (compile bytes).told →
          (compileWith listener bytes).IsCut (compile bytes) n reason ∧
          (n ≤ (compile bytes).told.length → ∀ (bytes' : List UInt8) (lines' : List (List UInt8)),
            LinesOf lineFeed carriageReturn bytes' lines' →
              lines'.take (n - 1) = lines.take (n - 1) →
                compileWith listener bytes' = compileWith listener bytes) := by
  obtain ⟨lines, h⟩ := exists_linesOf lineFeed carriageReturn bytes
  refine ⟨lines, h, ?_, length_told h, pairwise_told h, assembled_not_mem_told h, ?_, ?_, ?_⟩
  · intro i phase
    exact getElem?_told_iff h i
  · intro listener haccepts
    -- As if it failed at a call that does not come.
    have hfails : listener.FailsAt ((compile bytes).told.length + 1) "" (compile bytes).told :=
      ⟨fun k hk _ hle => haccepts k hk hle, fun hle => absurd hle (Nat.not_succ_le_self _)⟩
    exact (isCut_compileWith (Nat.succ_pos _) hfails).whole (Nat.lt_succ_self _)
  · intro n reason
    exact Listener.refusingAt_failsAt n reason _
  · intro listener n reason hn hfails
    refine ⟨isCut_compileWith hn hfails, ?_⟩
    intro hle bytes' lines' hlines' hsame
    exact compileWith_congr hn hle hfails h hlines' hsame

end LinProg
