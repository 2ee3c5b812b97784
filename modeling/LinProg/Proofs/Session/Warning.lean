import LinProg.Proofs.Session.Listener
import LinProg.Proofs.Statement.Objective

set_option autoImplicit false

/-! # Warnings

A compilation warns of one thing only, that text after the expression of the objective is dropped.
So the log tells how the objective line was read: with one warning that quotes what was dropped,
with none if nothing was, and a log without any message if the line states no objective (`Reports`).
No later line adds a warning, whatever comes of it (`warnings_run`). -/

namespace LinProg

open Text

/-! ## Warnings of a step -/

def warnings (messages : List Message) : List Message :=
  messages.filter fun m => m.severity = .warn

@[simp] theorem warnings_append (messages more : List Message) :
    warnings (messages ++ more) = warnings messages ++ warnings more :=
  List.filter_append ..

theorem warnings_ofDropped (dropped : List Char) :
    warnings (Message.ofDropped dropped) = Message.ofDropped dropped := by
  unfold Message.ofDropped
  split <;> rfl

namespace Session

/-- Behind the objective line there is nothing to warn of. -/
theorem Accepts.warnings_eq_nil {s s' : Session} {line : String} {messages : List Message}
    (h : s.Accepts line s' messages) (hphase : s.phase ≠ .objective) : warnings messages = [] := by
  cases h with
  | objective hobjective => exact absurd hobjective hphase
  | _ => rfl

/-! ## Warnings of a run -/

theorem warnings_conclude (s : Session) (told : List Phase) :
    warnings (s.conclude told).log = [] := by
  rw [conclude, close_eq]
  by_cases hphase : s.phase = .assembled
  · rw [if_pos hphase]
    cases s.model? <;> rfl
  · rw [if_neg hphase]
    cases s.objective? <;> rfl

theorem warnings_run (listener : Listener) (told : List Phase) (s : Session)
    (pieces : List (List UInt8)) (fault? : Option String) (hphase : s.phase ≠ .objective) :
    warnings (s.run listener told pieces fault?).log = [] := by
  fun_induction run listener told s pieces fault? with
  | case1 pieces told s hassembled => exact warnings_conclude s told
  | case2 => rfl
  | case3 => rfl
  | case4 told s => exact warnings_conclude s _
  | case5 => rfl
  | case6 => rfl
  | case7 told s _ haccepts piece pieces line hline s' messages hstep ih =>
    have hstep := step_eq_ok_iff.1 hstep
    -- No line goes back before the objective.
    have hphase' : s'.phase ≠ .objective := by
      rw [Phase.ne_objective_iff] at hphase ⊢
      exact Nat.lt_of_lt_of_le hphase hstep.rank_le
    rw [Run.after, warnings_append, hstep.warnings_eq_nil hphase, ih hphase', List.nil_append]

end Session

/-! ## The objective line -/

/-- How a log tells what came of the objective line. -/
inductive Reports : Except ParseError (Expression × List Char) → List Message → Prop
  /-- One warning quotes the text that was dropped. -/
  | dropped {e : Expression} {dropped : List Char} {log : List Message} {m : Message}
      (hdropped : dropped ≠ []) (hlog : warnings log = [m])
      (htext : m.text = "ignoring text after the objective function: `" ++ .ofList dropped ++ "`") :
      Reports (.ok (e, dropped)) log
  | complete {e : Expression} {log : List Message} (hlog : warnings log = []) :
      Reports (.ok (e, [])) log
  | failed {err : ParseError} : Reports (.error err) []

/-- The first line of a run is the objective line. -/
theorem reports_run {listener : Listener} (haccepts : listener [.objective] = none) {line : String}
    {piece : List UInt8} (hline : decodeLine? piece = some line) (pieces : List (List UInt8)) :
    Reports (parseObjective line) (Session.new.run listener [] (piece :: pieces)).log := by
  have hphase : Session.new.phase ≠ .assembled := Phase.noConfusion
  cases hparse : parseObjective line with
  | error err =>
    have hstep : Session.new.step line = .error (.statement 1 .objective err) := by
      rw [Session.step_of_objective rfl, hparse]
      rfl
    rw [Session.run_of_rejected hphase haccepts pieces hline hstep]
    exact .failed
  | ok r =>
    obtain ⟨e, dropped⟩ := r
    obtain ⟨s, hs, hstep⟩ : ∃ s : Session, s.phase ≠ .objective ∧ Session.new.step line =
        .ok (s, Message.ofDropped dropped ++
          [.objectiveRead e, .phaseChanged .objective .restrictions]) :=
      ⟨_, Phase.noConfusion, Session.step_eq_ok_iff.2 (.objective rfl hparse)⟩
    rw [Session.run_of_taken hphase haccepts pieces hline hstep]
    -- Of the step's messages only the report on dropped text is a warning, and no others follow.
    have hlog : warnings ((s.run listener ([] ++ [Session.new.phase]) pieces).after
        (Message.ofDropped dropped ++
          [.objectiveRead e, .phaseChanged .objective .restrictions])).log =
        Message.ofDropped dropped := by
      rw [Run.after, warnings_append, warnings_append, warnings_ofDropped,
        Session.warnings_run _ _ _ _ _ hs]
      simp [warnings, Message.severity]
    cases dropped with
    | nil => exact .complete hlog
    | cons c dropped => exact .dropped (List.cons_ne_nil c dropped) hlog rfl

/-- **An objective line is read in full or with a warning.** A line states an objective exactly as
    `ObjectiveReading` says, with the same result. What is dropped is the end of the line, and the
    line that is cut off before it states the same objective, with nothing dropped. However a run
    goes on behind its objective line, and also if it fails there, its log has a single warning,
    which quotes the dropped text, if there is any, and no warning otherwise; if the line states no
    objective nothing is logged at all. -/
theorem parseObjective_grammar (line : String) :
    (∀ result, parseObjective line = result ↔ ObjectiveReading line result) ∧
    (∀ e dropped, parseObjective line = .ok (e, dropped) →
      ∃ kept, line.toList = kept ++ dropped ∧ parseObjective (.ofList kept) = .ok (e, [])) ∧
    ∀ (listener : Listener) (piece : List UInt8) (pieces : List (List UInt8)),
      listener [.objective] = none → decodeLine? piece = some line →
        Reports (parseObjective line) (Session.new.run listener [] (piece :: pieces)).log := by
  refine ⟨?_, ?_, ?_⟩
  · intro result
    constructor
    · rintro rfl
      exact objectiveReading_parseObjective line
    · exact ObjectiveReading.eq_parseObjective
  · intro e dropped h
    exact exists_parseObjective_kept h
  · intro listener piece pieces haccepts hline
    exact reports_run haccepts hline pieces

end LinProg
