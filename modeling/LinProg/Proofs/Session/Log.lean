import Mathlib.Data.List.Chain
import LinProg.Proofs.Session.History
import LinProg.Proofs.Session.Problem
import LinProg.Proofs.Session.Statements

set_option autoImplicit false

/-! # What a log tells

A log tells of the lines that were accepted up to the last session that waited for a line
(`Session.LastWaits`): it is the history of that session, with the report on the model after it if
there is one (`Session.Ending`). So the log of a compilation tells which phases there were,
every statement with its place, how the compilation ended, and that the line which ended it in an
error reported nothing (`Run.Tells`). -/

namespace LinProg

open Text

/-! ## Runs -/

namespace Session

/-- What lines give rise to, up to the first one that is not accepted. -/
def reports (s : Session) : List String → List Message
  | [] => []
  | line :: lines =>
    match s.step line with
    | .error _ => []
    | .ok (s', messages) => messages ++ s'.reports lines

theorem reports_cons {s s' : Session} {line : String} {messages : List Message}
    (h : s.step line = .ok (s', messages)) (lines : List String) :
    s.reports (line :: lines) = messages ++ s'.reports lines := by
  rw [reports, h]

end Session

/-- Lines that are accepted, but do not complete the problem, add what they report. -/
theorem Session.History.reports {s t : Session} {lines : List String} {log : List Message}
    (h : s.History log) (hfeed : s.feedAll lines = .ok t) (hwaits : t.phase ≠ .assembled) :
    t.History (log ++ s.reports lines) := by
  induction lines generalizing s log with
  | nil =>
    cases hfeed
    rwa [Session.reports, List.append_nil]
  | cons line lines ih =>
    obtain ⟨s', hs', hrest⟩ := Session.feedAll_cons_eq_ok_iff.1 hfeed
    obtain ⟨messages, haccepts⟩ := Session.feed_eq_ok_iff.1 hs'
    have hopen : s'.phase ≠ .assembled := fun hphase =>
      hwaits (Session.finish_of_feedAll hphase hrest).1
    rw [Session.reports_cons (Session.step_eq_ok_iff.2 haccepts), ← List.append_assoc]
    exact ih (h.next haccepts hopen) hrest

namespace Session

/-- The last session that waits for a line: the first lines are texts and lead to it, and the next
    line, if there is any, completes the problem, is no text or is not accepted. -/
structure LastWaits (s : Session) (lines : List (List UInt8)) (texts : List String) (t : Session) :
    Prop where
  encodes : List.Forall₂ Encodes texts (lines.take texts.length)
  feedAll : s.feedAll texts = .ok t
  waits : t.phase ≠ .assembled
  last : ∀ line text t', lines[texts.length]? = some line → Encodes text line →
    t.feed text = .ok t' → t'.phase = .assembled

/-- The end of a run, of which some messages were reported before the last session that waited for
    a line. Unless the input ends, only a problem with sign restrictions can become complete. -/
inductive Ending (t : Session) (inputEnds : Prop) (log : List Message) : Run → Prop
  | failed (told : List Phase) (e : CompileError) : Ending t inputEnds log ⟨told, log, .error e⟩
  | complete (told : List Phase) {p : Problem} (hproblem : t.problem? = some p)
      (hend : t.phase = .restrictions → inputEnds) :
      Ending t inputEnds log ⟨told, log ++ completed t.phase p, .ok p.assemble⟩

theorem LastWaits.here {s : Session} {lines : List (List UInt8)} (hwaits : s.phase ≠ .assembled)
    (hlast : ∀ line text t', lines.head? = some line → Encodes text line →
      s.feed text = .ok t' → t'.phase = .assembled) : s.LastWaits lines [] s := by
  refine ⟨.nil, rfl, hwaits, ?_⟩
  intro line text t' hline
  exact hlast line text t' (List.head?_eq_getElem? ▸ hline)

theorem LastWaits.cons {s s' t : Session} {line : List UInt8} {lines : List (List UInt8)}
    {text : String} {texts : List String} (htext : Encodes text line) (hfeed : s.feed text = .ok s')
    (h : s'.LastWaits lines texts t) : s.LastWaits (line :: lines) (text :: texts) t where
  encodes := .cons htext h.encodes
  feedAll := feedAll_cons_eq_ok_iff.2 ⟨s', hfeed, h.feedAll⟩
  waits := h.waits
  last := h.last

theorem Ending.after {t : Session} {inputEnds : Prop} {log : List Message} {r : Run}
    (h : Ending t inputEnds log r) (messages : List Message) :
    Ending t inputEnds (messages ++ log) (r.after messages) := by
  cases h with
  | failed told e => exact .failed told e
  | complete told hproblem hend =>
    rw [Run.after, ← List.append_assoc]
    exact .complete told hproblem hend

/-- The end of the input completes the problem that there is. -/
theorem ending_conclude {s : Session} (hwaits : s.phase ≠ .assembled) (told : List Phase) :
    Ending s True [] (s.conclude told) := by
  rw [conclude, close_eq, if_neg hwaits]
  cases hobjective : s.objective? with
  | none => exact .failed told .missingObjective
  | some e =>
    have hproblem : s.problem? = some ⟨e, s.restrictions, s.signRestrictions⟩ := by
      rw [problem?, hobjective, Option.map_some]
    exact .complete told hproblem fun _ => trivial

theorem conclude_of_assembled {s : Session} {m : Model} (hphase : s.phase = .assembled)
    (h : s.model? = some m) (told : List Phase) : s.conclude told = ⟨told, [], .ok m⟩ := by
  rw [conclude, close_eq, if_pos hphase, h]

/-- A line completes the problem only if it ends the sign restrictions. -/
theorem ending_of_accepts {s s' : Session} {line : String} {messages : List Message}
    (hwaits : s.phase ≠ .assembled) (haccepts : s.Accepts line s' messages)
    (hphase : s'.phase = .assembled) (inputEnds : Prop) (told : List Phase) :
    Ending s inputEnds [] ((s'.conclude told).after messages) := by
  cases haccepts with
  | objective => cases hphase
  | restriction => exact absurd hphase hwaits
  | restrictionsEnd => cases hphase
  | signRestriction => exact absurd hphase hwaits
  | @signRestrictionsEnd e hsigns _ hobjective =>
    have hproblem : s.problem? = some ⟨e, s.restrictions, s.signRestrictions⟩ := by
      rw [problem?, hobjective, Option.map_some]
    rw [conclude_of_assembled rfl rfl, Run.after, List.append_nil, ← hsigns]
    exact .complete told hproblem (by simp [hsigns])
  | ignored hassembled => exact absurd hassembled hwaits

/-- However a run goes on from a session that waits for a line, it comes to a last one. -/
theorem exists_lastWaits_run {s : Session} (hwaits : s.phase ≠ .assembled) (told : List Phase)
    (pieces : List (List UInt8)) :
    ∃ texts t, s.LastWaits (pieces.map stripLineEnd) texts t ∧
      Ending t (texts.length = pieces.length) (s.reports texts) (s.run .silent told pieces) := by
  induction pieces generalizing s told with
  | nil =>
    have hlast : s.LastWaits [] [] s := .here hwaits (by simp)
    refine ⟨[], s, hlast, ?_⟩
    rw [run_nil hwaits rfl, List.length_nil, List.length_nil, eq_self]
    exact ending_conclude hwaits (told ++ [s.phase])
  | cons piece pieces ih =>
    have hhere : (∀ text t', decodeLine? piece = some text → s.feed text = .ok t' →
        t'.phase = .assembled) → s.LastWaits ((piece :: pieces).map stripLineEnd) [] s := by
      refine fun h => .here hwaits ?_
      rintro line text t' ⟨⟩ htext hfeed
      exact h text t' (encodes_stripLineEnd_iff.1 htext) hfeed
    cases hline : decodeLine? piece with
    | none =>
      refine ⟨[], s, hhere (by simp [hline]), ?_⟩
      rw [run_of_undecodable hwaits rfl pieces hline]
      exact .failed _ _
    | some text =>
      cases hstep : s.step text with
      | error e =>
        refine ⟨[], s, hhere ?_, ?_⟩
        · rintro text' t' htext hfeed
          rw [hline, Option.some.injEq] at htext
          obtain ⟨messages, haccepts⟩ := feed_eq_ok_iff.1 (htext ▸ hfeed)
          rw [← step_eq_ok_iff, hstep] at haccepts
          cases haccepts
        · rw [run_of_rejected hwaits rfl pieces hline hstep]
          exact .failed _ _
      | ok r =>
        obtain ⟨s', messages⟩ := r
        have hfeed : s.feed text = .ok s' := by
          rw [feed, hstep]
          rfl
        rw [run_of_taken hwaits rfl pieces hline hstep]
        by_cases hphase : s'.phase = .assembled
        · refine ⟨[], s, hhere ?_, ?_⟩
          · rintro text' t' htext hfeed'
            rw [hline, Option.some.injEq] at htext
            rw [← htext, hfeed] at hfeed'
            cases hfeed'
            exact hphase
          · rw [run_of_phase hphase]
            exact ending_of_accepts hwaits (step_eq_ok_iff.1 hstep) hphase _ _
        · obtain ⟨texts, t, hlast, hending⟩ := ih hphase (told ++ [s.phase])
          refine ⟨text :: texts, t, hlast.cons (encodes_stripLineEnd_iff.2 hline) hfeed, ?_⟩
          rw [reports_cons hstep, List.length_cons, List.length_cons, Nat.add_right_cancel_iff]
          exact hending.after messages

end Session

/-! ## What a log tells of a run -/

/-- A message reports the restriction of a line that has the given place among the restrictions. In
    the model the row with that place is that of the restriction. -/
def ReportsRestriction (result : Except CompileError Model) (entry : String × Nat) (m : Message) :
    Prop :=
  ∃ r, parseRestriction entry.1 = .ok r ∧ m.severity = .debug ∧
    m.text = "restriction " ++ entry.2.repr ++ ": " ++ r.text ∧
    ∀ model, result = .ok model → model.rows[entry.2]? = some (r.row model.names)

/-- A message reports the sign restriction of a line. -/
def ReportsSignRestriction (line : String) (m : Message) : Prop :=
  ∃ s, parseSignRestriction line = .ok s ∧ m.severity = .debug ∧
    m.text = "sign restriction: " ++ s.text

/-- A message reports a change of phase. -/
def ReportsChange (change : Phase × Phase) (m : Message) : Prop :=
  m.severity = .debug ∧ m.text = change.1.name ++ " -> " ++ change.2.name

/-- What the log tells of a run on some lines, of which the given texts are those before the last
    session that waited for a line. -/
structure Run.Tells (run : Run) (lines : List (List UInt8)) (texts : List String) (t : Session) :
    Prop where
  changes : List.Forall₂ ReportsChange (transitions run.log) (about .phase run.log)
  start : ∀ change ∈ (transitions run.log).head?, change.1 = .objective
  chain : (transitions run.log).IsChain fun change next => next.1 = change.2
  /-- The sign restrictions are left out only if the input ends before them. -/
  early : (.restrictions, .assembled) ∈ transitions run.log →
    t.phase = .restrictions ∧ texts.length = lines.length
  restrictions : List.Forall₂ (ReportsRestriction run.result) (sectionLines texts.tail).zipIdx
    (about .restriction run.log)
  signRestrictions : List.Forall₂ ReportsSignRestriction (sectionLines (afterSection texts.tail))
    (about .signRestriction run.log)
  /-- The model is reported once, at the end. -/
  model : ∀ m, run.result = .ok m → ∃ before info trace change,
    run.log = before ++ [info, trace, change] ∧ (∀ b ∈ before, ¬ b.IsOnModel) ∧
    info.severity = .info ∧ info.text = "assembled model with " ++ m.rows.length.repr ++
      " restrictions and " ++ m.columns.length.repr ++ " variables" ∧
    trace.severity = .trace ∧ trace.text = "\n" ++ m.text ∧
    ReportsChange (t.phase, .assembled) change
  /-- The line that is not accepted reports nothing. -/
  failure : ∀ e, run.result = .error e →
    run.log = Session.new.reports texts ∧ ∀ m ∈ run.log, ¬ m.IsOnModel
  warning : ∃ before after, run.log = before ++ after ∧ before.length ≤ 1 ∧
    (∀ m ∈ before, m.severity = .warn) ∧ ∀ m ∈ after, m.severity ≠ .warn

theorem forall₂_reportsChange (log : List Message) :
    List.Forall₂ ReportsChange (transitions log) (about .phase log) := by
  induction log with
  | nil => exact .nil
  | cons m log ih =>
    cases m with
    | phaseChanged old new => exact .cons ⟨rfl, rfl⟩ ih
    | _ => exact ih

section Path

variable (phase new : Phase)

theorem isChain_path :
    (phase.path ++ [(phase, new)]).IsChain fun change next => next.1 = change.2 := by
  cases phase <;> simp [Phase.path]

theorem head?_path :
    ∀ change ∈ (phase.path ++ [(phase, new)]).head?, change.1 = .objective := by
  cases phase <;> simp [Phase.path]

/-- The restrictions are not skipped on the way. -/
theorem not_mem_path : (Phase.restrictions, Phase.assembled) ∉ phase.path := by
  cases phase <;> simp [Phase.path]

end Path

theorem forall₂_reportsRestriction {result : Except CompileError Model} {lines : List String}
    {rs : List Restriction}
    (h : List.Forall₂ (fun line r => parseRestriction line = .ok r) lines rs) (n : Nat)
    (hrows : ∀ i r, rs[i]? = some r →
      ∀ model, result = .ok model → model.rows[n + i]? = some (r.row model.names)) :
    List.Forall₂ (ReportsRestriction result) (lines.zipIdx n)
      ((rs.zipIdx n).map fun entry => .restrictionRead entry.2 entry.1) := by
  induction h generalizing n with
  | nil => exact .nil
  | @cons line r lines rs hline _ ih =>
    refine .cons ⟨r, hline, rfl, rfl, hrows 0 r rfl⟩ (ih (n + 1) fun i r' hr' => ?_)
    rw [Nat.add_assoc, Nat.add_comm 1]
    exact hrows (i + 1) r' hr'

theorem forall₂_reportsSignRestriction {lines : List String} {ss : List SignRestriction}
    (h : List.Forall₂ (fun line s => parseSignRestriction line = .ok s) lines ss) :
    List.Forall₂ ReportsSignRestriction lines (signRestrictionReports ss) := by
  rw [signRestrictionReports, List.forall₂_map_right_iff]
  exact h.imp fun line s hs => ⟨s, hs, rfl, rfl⟩

namespace Session

section Tells

variable {lines : List (List UInt8)} {texts : List String} {t : Session}
  (hlast : new.LastWaits lines texts t) (told : List Phase)

include hlast

theorem LastWaits.history : t.History (new.reports texts) :=
  History.new.reports hlast.feedAll hlast.waits

theorem LastWaits.transitions_reports : transitions (new.reports texts) = t.phase.path :=
  hlast.history.transitions_eq

theorem LastWaits.about_restriction_reports :
    about .restriction (new.reports texts) = restrictionReports t.restrictions :=
  hlast.history.about_restriction

theorem LastWaits.about_signRestriction_reports :
    about .signRestriction (new.reports texts) = signRestrictionReports t.signRestrictions :=
  hlast.history.about_signRestriction

/-- Without a model nothing is reported after the lines that are accepted. -/
theorem LastWaits.tells_failed (e : CompileError) :
    Run.Tells ⟨told, new.reports texts, .error e⟩ lines texts t where
  changes := forall₂_reportsChange _
  start := by
    intro change hchange
    rw [hlast.transitions_reports] at hchange
    refine head?_path t.phase .assembled change ?_
    rw [List.head?_append, Option.mem_def.1 hchange]
    rfl
  chain := by
    rw [hlast.transitions_reports]
    exact (isChain_path t.phase .assembled).left_of_append
  early := by
    rw [hlast.transitions_reports]
    exact fun hmem => absurd hmem (not_mem_path t.phase)
  restrictions := by
    rw [hlast.about_restriction_reports]
    refine forall₂_reportsRestriction (statements_of_feedAll hlast.feedAll).1 0 ?_
    rintro i r - m ⟨⟩
  signRestrictions := by
    rw [hlast.about_signRestriction_reports]
    exact forall₂_reportsSignRestriction (statements_of_feedAll hlast.feedAll).2
  model := by
    rintro m ⟨⟩
  failure := fun _ _ => ⟨rfl, hlast.history.not_isOnModel⟩
  warning := by
    have hwarning := hlast.history.exists_warning [] (List.forall_mem_nil _)
    rwa [List.append_nil] at hwarning

theorem LastWaits.transitions_completed (p : Problem) :
    transitions (new.reports texts ++ completed t.phase p) =
      t.phase.path ++ [(t.phase, .assembled)] := by
  rw [transitions_append, hlast.transitions_reports]
  rfl

/-- A model is reported after the lines that make it up. -/
theorem LastWaits.tells_complete {p : Problem} (hproblem : t.problem? = some p)
    (hend : t.phase = .restrictions → texts.length = lines.length) :
    Run.Tells ⟨told, new.reports texts ++ completed t.phase p, .ok p.assemble⟩ lines texts
      t where
  changes := forall₂_reportsChange _
  start := by
    rw [hlast.transitions_completed]
    exact head?_path t.phase .assembled
  chain := by
    rw [hlast.transitions_completed]
    exact isChain_path t.phase .assembled
  early := by
    rw [hlast.transitions_completed, List.mem_append, List.mem_singleton]
    rintro (hmem | heq)
    · exact absurd hmem (not_mem_path t.phase)
    · have hphase : t.phase = .restrictions := (congrArg Prod.fst heq).symm
      exact ⟨hphase, hend hphase⟩
  restrictions := by
    rw [about_append, hlast.about_restriction_reports,
      show about .restriction (completed t.phase p) = [] from rfl, List.append_nil]
    refine forall₂_reportsRestriction (statements_of_feedAll hlast.feedAll).1 0 ?_
    rintro i r hr m ⟨⟩
    obtain ⟨e, -, rfl⟩ := Option.map_eq_some_iff.1 hproblem
    rw [Nat.zero_add, Problem.names_assemble, Problem.assemble, List.getElem?_map, hr]
    rfl
  signRestrictions := by
    rw [about_append, hlast.about_signRestriction_reports,
      show about .signRestriction (completed t.phase p) = [] from rfl, List.append_nil]
    exact forall₂_reportsSignRestriction (statements_of_feedAll hlast.feedAll).2
  model := by
    rintro m ⟨⟩
    exact ⟨_, _, _, _, rfl, hlast.history.not_isOnModel, rfl, rfl, rfl, rfl, rfl, rfl⟩
  failure := by
    rintro e ⟨⟩
  warning := by
    refine hlast.history.exists_warning _ ?_
    simp [completed, Message.ofModel, Message.severity]

end Tells

end Session

/-- The log of a compilation tells of the lines up to the last session that waits for one. -/
theorem exists_tells_compile {bytes : List UInt8} {lines : List (List UInt8)}
    (h : LinesOf lineFeed carriageReturn bytes lines) :
    ∃ texts t, Session.new.LastWaits lines texts t ∧ (compile bytes).Tells lines texts t := by
  have hlines := linesOf_bytes_iff.1 h
  obtain ⟨texts, t, hlast, hending⟩ :=
    Session.exists_lastWaits_run (s := Session.new) Phase.noConfusion [] (cutLines bytes)
  have hlength : (cutLines bytes).length = lines.length := by
    rw [← hlines, List.length_map]
  rw [hlines] at hlast
  rw [hlength] at hending
  refine ⟨texts, t, hlast, ?_⟩
  rw [compile, compileWith_ofBytes]
  generalize Session.new.run .silent [] (cutLines bytes) = run at hending
  cases hending with
  | failed told e => exact hlast.tells_failed told e
  | complete told hproblem hend => exact hlast.tells_complete told hproblem hend

end LinProg
