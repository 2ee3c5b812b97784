import LinProg.Command.Run
import LinProg.Proofs.Command.Host
import LinProg.Proofs.Session.Fault

set_option autoImplicit false

/-! # What a run delivers

A run of the command in a file tree either delivers its model as a whole or leaves everything as it
was. `Options.CompilesTo` says which model there is to deliver: that of the input which the options
select. `Options.Delivers` says what then comes of a run: the model is printed, or one file is made
of it, or nothing at all happens and the run fails. That a run does so is shown for the parts of the
command one after the other, each as an equation for its run in a tree.

A file that was made may still fail to be written. This is set apart: delivery is promised for files
that can be written, and otherwise a part of the model is left (`writesPart_perform`). -/

namespace LinProg.Command

open Text

/-! ## What there is to deliver -/

/-- The input that the options select is what is read of the input file, or the standard input if no
    file is given. -/
def Options.Selects (o : Options) (tree : FileTree) (w : Surroundings) (input : Input) : Prop :=
  match o.input with
  | none => input = w.input
  | some path => w.Opens tree path input

/-- Whether a user is asked for lines: only at a terminal, and only if that is wanted. -/
def Options.asks (o : Options) (w : Surroundings) : Bool :=
  o.input.isNone && (!o.noPrompt && w.isTerminal)

/-- How the input is compiled. Asking for a line may fail. -/
def Options.compilation (o : Options) (w : Surroundings) (input : Input) : Run :=
  compileWith (if o.asks w then w.prompts else .silent) input

/-- A user at a terminal can be asked for all lines of the standard input. -/
def Surroundings.PromptsPass (w : Surroundings) : Prop :=
  w.isTerminal = true →
    ∀ told, told ≠ [] → told <+: (compile w.input).told → w.prompts told = none

/-- A user is asked for all lines or for none. -/
def Options.PromptsPass (o : Options) (w : Surroundings) : Prop :=
  o.asks w = true → w.PromptsPass

theorem Surroundings.PromptsPass.options {w : Surroundings} (h : w.PromptsPass) (o : Options) :
    o.PromptsPass w :=
  fun _ => h

theorem Options.promptsPass_of_input {o : Options} (w : Surroundings) {path : String}
    (h : o.input = some path) : o.PromptsPass w := by
  intro hasks
  rw [asks, h] at hasks
  exact absurd hasks Bool.false_ne_true

/-- Asking for the lines does not change what is compiled. -/
theorem Options.compilation_of_promptsPass {o : Options} {tree : FileTree} {w : Surroundings}
    {input : Input} (hinput : o.Selects tree w input) (h : o.PromptsPass w) :
    o.compilation w input = compile input := by
  rw [compilation]
  split
  · next hasks =>
    have hprompts := h hasks
    simp only [asks, Bool.and_eq_true, Option.isNone_iff_eq_none] at hasks
    rw [Selects, hasks.1] at hinput
    subst hinput
    exact compileWith_of_accepts (hprompts hasks.2.2)
  · rfl

/-- The options select something that compiles to a model. -/
def Options.CompilesTo (o : Options) (tree : FileTree) (w : Surroundings) (model : Model) : Prop :=
  ∃ input, o.Selects tree w input ∧ (o.compilation w input).result = .ok model

/-! ## Ways for a run to end -/

/-- The run succeeds, prints nothing and makes the file at a path of a text: it is what that path
    and all others to the same place hold afterwards. All other files are as they were. -/
structure Writes (tree : FileTree) (path : String) (text : String) (r : Outcome × FileTree) :
    Prop where
  exitCode : r.1.exitCode = 0
  output : r.1.output = ""
  replaces : ∃ place contents, tree.CanCreate path place ∧ Encodes text contents ∧
    tree.Replaces place contents r.2 ∧
    ∀ other, tree.CanCreate other place → r.2.Holds other contents

/-- The run fails, prints nothing and leaves so many bytes of a text in the file at a place. All
    other files are as they were. -/
structure WritesPart (tree : FileTree) (place : Place) (text : String) (count : Nat)
    (r : Outcome × FileTree) : Prop where
  exitCode : r.1.exitCode = 1
  output : r.1.output = ""
  replaces : ∃ contents, Encodes text contents ∧ tree.Replaces place (contents.take count) r.2

/-- Two runs have the same exit code, print the same and leave the same files. -/
structure SameEffects (r r' : Outcome × FileTree) : Prop where
  exitCode : r'.1.exitCode = r.1.exitCode
  output : r'.1.output = r.1.output
  tree : r'.2 = r.2

section Effects

variable {tree : FileTree} {r r' : Outcome × FileTree} (h : SameEffects r r')

include h

theorem SameEffects.writesPart {place : Place} {text : String} {count : Nat}
    (hr : WritesPart tree place text count r) : WritesPart tree place text count r' :=
  ⟨h.exitCode.trans hr.exitCode, h.output.trans hr.output, h.tree.symm ▸ hr.replaces⟩

end Effects

/-! ## Writing a model -/

section Write

variable (w : Surroundings) (tree : FileTree) (path : String) (log : List Message) (model : Model)

/-- What comes of writing a model. A file that can be made is emptied first. -/
theorem run_writeModel :
    (writeModel (FileTree.host w) path log model).run tree =
      if path = "-" then ({ exitCode := 0, output := modelText model, log }, tree)
      else match w.createFile tree path with
        | .error e => (.failure log e.message, tree)
        | .ok place =>
          match w.writeFile (tree.put place []) place (modelText model).toByteArray.toList with
          | (.error e, t) => (.failure log e.message, t)
          | (.ok _, t) => ({ exitCode := 0, log := log ++ [.modelWritten path] }, t) := by
  have hcreate := run_createFile w tree path
  rw [writeModel]
  split
  · rfl
  · cases hplace : w.createFile tree path with
    | error e =>
      rw [hplace] at hcreate
      exact run_bind_of hcreate
    | ok place =>
      rw [hplace] at hcreate
      refine (run_bind_of hcreate).trans ?_
      dsimp only
      cases hwrite : w.writeFile (tree.put place []) place (modelText model).toByteArray.toList with
      | mk done t =>
        have hrun := (run_writeFile w (tree.put place []) place (modelText model)).trans hwrite
        refine (run_bind_of hrun).trans ?_
        cases done <;> rfl

theorem asked_writeModel :
    ((writeModel (FileTree.host w) path log model).run tree).1.asked = [] := by
  rw [run_writeModel]
  split
  · rfl
  · split
    · rfl
    · split <;> rfl

variable {w tree path}

theorem writesPart_writeModel {place : Place} (hpath : path ≠ "-")
    (h : w.CanCreate tree path place) {count : Nat} {e : FileFault}
    (hfault : w.writeFault? place = some (count, e)) :
    WritesPart tree place (model.json ++ "\n") count
      ((writeModel (FileTree.host w) path log model).run tree) := by
  have hreplaces := (tree.replaces_put place []).append
    ((modelText model).toByteArray.toList.take count)
  rw [run_writeModel, if_neg hpath, Surroundings.createFile_eq_ok_iff.2 h]
  simp only [Surroundings.writeFile, hfault]
  exact ⟨rfl, rfl, _, (toList_toByteArray _).symm, hreplaces⟩

end Write

/-! ## Compiling a problem -/

section Compile

variable (w : Surroundings) (tree : FileTree) (o : Options)

theorem Outcome.eq_of_asked {r : Outcome} (h : r.asked = []) : r = { r with asked := [] } := by
  rw [← h]

theorem asked_deliver (path : String) (run : Run) :
    ((deliver (FileTree.host w) path run).run tree).1.asked = [] := by
  rw [deliver]
  cases run.result with
  | error e => rfl
  | ok model => exact asked_writeModel w tree path run.log model

def Options.source : Except FileFault Input :=
  match o.input with
  | some path => w.openFile tree path
  | none => .ok w.input

variable {w tree o} in
theorem Options.source_eq_ok_iff {input : Input} :
    o.source w tree = .ok input ↔ o.Selects tree w input := by
  rw [source, Selects]
  cases o.input with
  | none => simp [eq_comm]
  | some path => exact Surroundings.openFile_eq_ok_iff

/-- The input comes from a file or from the standard input, where a user may be asked for it. What
    is then compiled is delivered. -/
theorem run_compileProblem :
    (compileProblem (FileTree.host w) o).run tree =
      match o.source w tree with
      | .error e => (.failure [] e.message, tree)
      | .ok input =>
        let r := (deliver (FileTree.host w) o.outputPath (o.compilation w input)).run tree
        ({ r.1 with asked := if o.asks w then (o.compilation w input).told else [] }, r.2) := by
  cases hinput : o.input with
  | some path =>
    simp only [compileProblem, Options.source, Options.compilation, Options.asks, hinput]
    refine (run_bind_of (run_openFile w tree path)).trans ?_
    cases w.openFile tree path with
    | error e => rfl
    | ok input =>
      exact Prod.ext (Outcome.eq_of_asked (asked_deliver w tree o.outputPath (compile input))) rfl
  | none =>
    simp only [compileProblem, Options.source, Options.compilation, Options.asks, hinput]
    rfl

/-- A compilation has the effects of the delivery of its input. -/
theorem sameEffects_compileProblem {input : Input} (h : o.source w tree = .ok input) :
    SameEffects ((deliver (FileTree.host w) o.outputPath (o.compilation w input)).run tree)
      ((compileProblem (FileTree.host w) o).run tree) := by
  rw [run_compileProblem, h]
  exact ⟨rfl, rfl, rfl⟩

variable {w tree o}

theorem sameEffects_writeModel {model : Model} (h : o.CompilesTo tree w model) :
    ∃ log, SameEffects ((writeModel (FileTree.host w) o.outputPath log model).run tree)
      ((compileProblem (FileTree.host w) o).run tree) := by
  obtain ⟨input, hinput, hresult⟩ := h
  have heffects := sameEffects_compileProblem w tree o (Options.source_eq_ok_iff.2 hinput)
  rw [deliver, hresult] at heffects
  exact ⟨_, heffects⟩

variable (w tree o)

/-- How much is shown of a compilation is no effect. -/
theorem sameEffects_perform :
    SameEffects ((compileProblem (FileTree.host w) o).run tree)
      ((perform (FileTree.host w) (.compile o)).run tree) :=
  ⟨rfl, rfl, rfl⟩

variable {w tree o}

/-- A file that is made but cannot be written as a whole is left with a part of the model. -/
theorem writesPart_perform {model : Model} {place : Place} {count : Nat} {e : FileFault}
    (h : o.CompilesTo tree w model) (hpath : o.outputPath ≠ "-")
    (hplace : w.CanCreate tree o.outputPath place)
    (hfault : w.writeFault? place = some (count, e)) :
    WritesPart tree place (model.json ++ "\n") count
      ((perform (FileTree.host w) (.compile o)).run tree) := by
  obtain ⟨log, heffects⟩ := sameEffects_writeModel h
  have hpart := heffects.writesPart (writesPart_writeModel log model hpath hplace hfault)
  exact (sameEffects_perform w tree o).writesPart hpart

end Compile

/-- A problem that is not compiled is not overwritten, whatever its file is called. -/
example :
    let tree := FileTree.ofPaths [("problem", encode "min".toList)] []
    let arguments := ["-i", "../work/problem", "-o", "/work/problem"]
    (executeIn tree (.ofBytes []) arguments).2.topFiles = tree.topFiles := by
  decide +kernel

end LinProg.Command
