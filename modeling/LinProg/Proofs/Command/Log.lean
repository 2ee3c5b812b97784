import LinProg.Proofs.Command.Delivery
import LinProg.Proofs.Session.Log

set_option autoImplicit false

/-! # What a run of the command shows

A run of the command shows the log of its compilation, and after it that the model was written to a
file, at the level that was asked for. The level only selects among these messages
(`exists_log_perform`). A user is asked for the lines that the compilation waits for
(`asked_perform`). -/

namespace LinProg.Command

open Text

/-- No message is beyond the last level. -/
theorem rank_le_five (s : Severity) : s.rank ≤ 5 := by
  cases s <;> decide

theorem shownAt_level (o : Options) (m : Message) :
    m.shownAt o.level = decide (m.severity.rank ≤ 2 + o.verbosity) := by
  rw [Message.shownAt, Options.level, decide_eq_decide, Nat.le_min]
  exact and_iff_left (rank_le_five m.severity)

section Run

variable {tree : FileTree} {w : Surroundings} {input : Input} {o : Options}

/-- All that is reported of a delivery is the log of the compilation and, at the end, that a file
    was written. -/
theorem exists_log_deliver (w : Surroundings) (tree : FileTree) (path : String) (run : Run) :
    ∃ written : List Message, written.length ≤ 1 ∧ (∀ m ∈ written, m = .modelWritten path) ∧
      ((deliver (FileTree.host w) path run).run tree).1.log = run.log ++ written := by
  have hnothing : ∃ written : List Message, written.length ≤ 1 ∧
      (∀ m ∈ written, m = .modelWritten path) ∧ run.log = run.log ++ written :=
    ⟨[], by simp, by simp, (List.append_nil _).symm⟩
  rw [deliver]
  cases run.result with
  | error e => exact hnothing
  | ok model =>
    dsimp only
    rw [run_writeModel]
    split
    · exact hnothing
    · split
      · exact hnothing
      · split
        · exact hnothing
        · exact ⟨[.modelWritten path], by simp, by simp, rfl⟩

/-- The level selects among the same messages. -/
theorem exists_log_perform (h : o.Selects tree w input) (hprompts : o.PromptsPass w) :
    ∃ written : List Message, written.length ≤ 1 ∧
      (∀ m ∈ written, m = .modelWritten o.outputPath) ∧
      ∀ n, ((perform (FileTree.host w) (.compile { o with verbosity := n })).run tree).1.log =
        ((compile input).log ++ written).filter fun m => m.severity.rank ≤ 2 + n := by
  obtain ⟨written, hlength, hwritten, hlog⟩ :=
    exists_log_deliver w tree o.outputPath (compile input)
  refine ⟨written, hlength, hwritten, fun n => ?_⟩
  have hselects : { o with verbosity := n : Options }.Selects tree w input := h
  rw [← hlog, perform, StateT.run_bind, run_compileProblem,
    Options.source_eq_ok_iff.2 hselects]
  dsimp only
  rw [Options.compilation_of_promptsPass hselects hprompts]
  refine List.filter_congr fun m _ => ?_
  exact shownAt_level { o with verbosity := n } m

/-- A user is asked in the phases that the compilation tells, or not at all. -/
theorem asked_perform (h : o.Selects tree w input) :
    ((perform (FileTree.host w) (.compile o)).run tree).1.asked =
      if o.asks w then (o.compilation w input).told else [] := by
  rw [perform, StateT.run_bind, run_compileProblem, Options.source_eq_ok_iff.2 h]
  rfl

end Run

/-- **The log tells the run.** The lines of a stream up to the last one that a session waits for are
    texts which it accepts, and the log of the compilation tells of them. The changes of phase start
    at the objective and each starts where the one before ended, and the sign restrictions are
    skipped only if the input ends before them. Every restriction is reported once, in order, with
    its place, which is that of its row in the model, and so is every sign restriction. A model is
    reported at the end with its dimensions and in full, and then the last change of phase; without
    a model neither is reported, and the line that ended the compilation reports nothing. At most
    one warning comes first. However much a user asks to be shown, the command shows the messages of
    this log that are severe enough, and after them that the model was written. -/
theorem log_tells_run :
    (∀ bytes : List UInt8, ∃ lines texts t, LinesOf lineFeed carriageReturn bytes lines ∧
      Session.new.LastWaits lines texts t ∧ (compile bytes).Tells lines texts t) ∧
    ∀ (tree : FileTree) (w : Surroundings) (input : Input) (o : Options), o.PromptsPass w →
      o.Selects tree w input →
        ∃ written : List Message, written.length ≤ 1 ∧
          (∀ m ∈ written, m = .modelWritten o.outputPath) ∧
          ∀ n,
            ((perform (FileTree.host w) (.compile { o with verbosity := n })).run tree).1.log =
              ((compile input).log ++ written).filter fun m => m.severity.rank ≤ 2 + n := by
  refine ⟨?_, ?_⟩
  · intro bytes
    obtain ⟨lines, hlines⟩ := exists_linesOf lineFeed carriageReturn bytes
    obtain ⟨texts, t, hlast, htells⟩ := exists_tells_compile hlines
    exact ⟨lines, texts, t, hlines, hlast, htells⟩
  · intro tree w input o hprompts h
    exact exists_log_perform h hprompts

end LinProg.Command
