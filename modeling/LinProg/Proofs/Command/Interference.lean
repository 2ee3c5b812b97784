import LinProg.Proofs.Command.Arguments
import LinProg.Proofs.Command.Delivery

set_option autoImplicit false

/-! # What does not influence a run

How much a run shows, whether a user may be asked for lines, and whether the problem comes from a
file or from the standard input have no influence on the effects of a run: its exit code, what it
prints and the files afterwards (`SameEffects`). What a run does with options is settled by the
input that they select and by the output path (`sameEffects_perform_congr`), as long as a user can
be asked for lines at all: what is told to a listener that accepts it changes no compilation. What a
run shows is no effect. Switches and an input file can stand anywhere between the other arguments,
and add just themselves to the options (`readArguments_flags`, `readArguments_input`). -/

namespace LinProg.Command

/-! ## Compilations of the same input -/

section Perform

variable {tree : FileTree} {w w' : Surroundings} {o o' : Options}

/-- A delivery depends on what may fail of making and writing files, and on nothing else. -/
theorem run_deliver_congr (hcreate : w'.createFault? = w.createFault?)
    (hwrite : w'.writeFault? = w.writeFault?) (path : String) (run : Run) :
    (deliver (FileTree.host w') path run).run tree =
      (deliver (FileTree.host w) path run).run tree := by
  rw [deliver, deliver]
  cases run.result with
  | error e => rfl
  | ok model =>
    simp only [run_writeModel, Surroundings.createFile, Surroundings.writeFile, hcreate, hwrite]

/-- Two systems may differ in their standard inputs and in asking for its lines, if the same input
    is selected in both. -/
theorem sameEffects_perform_congr (hcreate : w'.createFault? = w.createFault?)
    (hwrite : w'.writeFault? = w.writeFault?) (hprompts : o.PromptsPass w)
    (hprompts' : o'.PromptsPass w') (hsource : o'.source w' tree = o.source w tree)
    (houtput : o'.outputPath = o.outputPath) :
    SameEffects ((perform (FileTree.host w) (.compile o)).run tree)
      ((perform (FileTree.host w') (.compile o')).run tree) := by
  rw [perform, StateT.run_bind, perform, StateT.run_bind, run_compileProblem, run_compileProblem,
    hsource]
  cases hinput : o.source w tree with
  | error e => exact ⟨rfl, rfl, rfl⟩
  | ok input =>
    have hselects' := Options.source_eq_ok_iff.1 (hsource.trans hinput)
    dsimp only
    rw [Options.compilation_of_promptsPass (Options.source_eq_ok_iff.1 hinput) hprompts,
      Options.compilation_of_promptsPass hselects' hprompts', houtput,
      run_deliver_congr hcreate hwrite]
    exact ⟨rfl, rfl, rfl⟩

theorem sameEffects_executeIn {arguments arguments' : List String}
    (ho : readArguments arguments = .ok (.compile o))
    (ho' : readArguments arguments' = .ok (.compile o'))
    (h : SameEffects ((perform (FileTree.host w) (.compile o)).run tree)
      ((perform (FileTree.host w') (.compile o')).run tree)) :
    SameEffects (executeIn tree w arguments) (executeIn tree w' arguments') := by
  rw [executeIn, execute, ho, executeIn, execute, ho']
  exact h

end Perform

/-! ## Channels -/

section Channels

variable {tree : FileTree} {w : Surroundings} {o o' : Options}

theorem Options.source_congr (h : o'.input = o.input) : o'.source w tree = o.source w tree := by
  rw [source, source, h]

/-- A file that can be read is as good as its bytes on the standard input. -/
theorem Options.source_of_holds {bytes : List UInt8} {file : String} (ho : o.input = none)
    (ho' : o'.input = some file) (h : tree.Holds file bytes) (hopen : w.openFault? file = none)
    (hread : w.readFault? file = none) :
    o'.source w tree = o.source { w with input := bytes } tree := by
  have hfile := Surroundings.openFile_of_holds hopen h
  rw [Surroundings.reading, hread] at hfile
  rw [source, source, ho, ho']
  exact hfile

/-- An empty path is no file. -/
theorem ne_empty_of_holds {bytes : List UInt8} {file : String} (h : tree.Holds file bytes) :
    file ≠ "" := by
  rintro rfl
  obtain ⟨place, hnames, -⟩ := h.file
  cases hnames with
  | @entry names name folder hpath =>
    have hempty : FileTree.pathNames "" = [] := by decide
    rw [hempty] at hpath
    exact List.append_ne_nil_of_right_ne_nil names (List.cons_ne_nil name []) hpath.symm

end Channels

/-! ## Arguments -/

/-- The switch to show more, any number of times, and perhaps the switch to ask for no lines. -/
def flags (more : Nat) (noPrompt : Bool) : List String :=
  List.replicate more "-v" ++ if noPrompt then ["--no-prompt"] else []

theorem dashes_not_mem_flags (more : Nat) (noPrompt : Bool) : "--" ∉ flags more noPrompt := by
  cases noPrompt <;> simp [flags, List.mem_replicate]

theorem read_replicate (o : Options) (more : Nat) (rest : List String) :
    o.read (List.replicate more "-v" ++ rest) =
      { o with verbosity := o.verbosity + more : Options }.read rest := by
  induction more generalizing o with
  | zero => rfl
  | succ more ih =>
    have htake : o.take "-v" = .ok (.more { o with verbosity := o.verbosity + 1 }) := rfl
    rw [List.replicate_succ, List.cons_append, read_cons_of_more _ htake, ih,
      Nat.add_right_comm o.verbosity 1 more]
    rfl

theorem readArguments_flags (more : Nat) (noPrompt : Bool) :
    readArguments (flags more noPrompt) =
      .ok (.compile { noPrompt := noPrompt, verbosity := more }) := by
  rw [readArguments, flags, read_replicate, Nat.zero_add]
  cases noPrompt with
  | false => rfl
  | true => exact read_cons_of_more [] rfl

theorem dashes_not_mem_input {file : String} (hvalue : isValue file = true) :
    "--" ∉ ["-i", file] := by
  intro hmem
  have hfile : "--" = file := by simpa using hmem
  subst hfile
  revert hvalue
  decide

theorem readArguments_input {file : String} (hvalue : isValue file = true) (hfile : file ≠ "") :
    readArguments ["-i", file] = .ok (.compile { input := some file }) := by
  have htake : ({} : Options).take "-i" = .ok (.value {} .input) := rfl
  refine read_cons_of_value [] htake hvalue ?_
  rw [Options.set, if_neg (by simpa using hfile)]
  rfl

/-- **Verbosity, prompting and the input channel do not interfere.** Two runs whose arguments ask
    for a compilation of the same input to the same output have the same effects, however much they
    show and whether or not they may ask for lines, through a pipe as well as at a terminal where a
    user can be asked. So it is with switches anywhere between the other arguments, as long as the
    one for prompts is not repeated. A run with an input file that can be read has the same effects
    as a run with its bytes on the standard input and the file there. A terminal is as good as a
    pipe. -/
theorem verbosity_and_channel_do_not_interfere :
    (∀ (tree : FileTree) (w : Surroundings) (arguments arguments' : List String)
      (o o' : Options), w.PromptsPass → readArguments arguments = .ok (.compile o) →
        readArguments arguments' = .ok (.compile o') → o'.input = o.input →
          o'.outputPath = o.outputPath →
            SameEffects (executeIn tree w arguments) (executeIn tree w arguments')) ∧
      (∀ (tree : FileTree) (w : Surroundings) (before after : List String) (o last : Options),
        w.PromptsPass → readArguments before = .ok (.compile o) → "--" ∉ before →
          readArguments (before ++ after) = .ok (.compile last) →
            ∀ (n n' : Nat) (b b' : Bool), last.noPrompt = false ∨ b = false ∧ b' = false →
              SameEffects (executeIn tree w (before ++ flags n b ++ after))
                (executeIn tree w (before ++ flags n' b' ++ after))) ∧
      (∀ (tree : FileTree) (w : Surroundings) (bytes : List UInt8)
        (arguments arguments' : List String) (o o' : Options) (file : String),
        tree.Holds file bytes → w.openFault? file = none → w.readFault? file = none →
          Surroundings.PromptsPass { w with input := bytes } →
            readArguments arguments = .ok (.compile o) → o.input = none →
              readArguments arguments' = .ok (.compile o') → o'.input = some file →
                o'.outputPath = o.outputPath →
                  SameEffects (executeIn tree { w with input := bytes } arguments)
                    (executeIn tree w arguments')) ∧
      (∀ (tree : FileTree) (w : Surroundings) (bytes : List UInt8) (before after : List String)
        (o last : Options) (file : String),
        tree.Holds file bytes → w.openFault? file = none → w.readFault? file = none →
          Surroundings.PromptsPass { w with input := bytes } →
            isValue file = true → readArguments before = .ok (.compile o) → "--" ∉ before →
              readArguments (before ++ after) = .ok (.compile last) → last.input = none →
                SameEffects (executeIn tree { w with input := bytes } (before ++ after))
                  (executeIn tree w (before ++ ["-i", file] ++ after))) ∧
      ∀ (tree : FileTree) (w : Surroundings) (arguments : List String) (o : Options),
        w.PromptsPass → readArguments arguments = .ok (.compile o) →
          SameEffects (executeIn tree { w with isTerminal := false } arguments)
            (executeIn tree w arguments) := by
  refine ⟨?_, ?_, ?_, ?_, ?_⟩
  · intro tree w arguments arguments' o o' hprompts ho ho' hinput houtput
    exact sameEffects_executeIn ho ho'
      (sameEffects_perform_congr rfl rfl (hprompts.options o) (hprompts.options o')
        (Options.source_congr hinput) houtput)
  · intro tree w before after o last hprompts hbefore hdashes hread n n' b b' hprompt
    have hflags : ∀ (n : Nat) (b : Bool), last.noPrompt = false ∨ b = false →
        readArguments (before ++ flags n b ++ after) =
          .ok (.compile (last.merge { noPrompt := b, verbosity := n })) :=
      fun n b hb => readArguments_insert hbefore hdashes (readArguments_flags n b)
        (dashes_not_mem_flags n b) hread ⟨.inr rfl, .inr rfl, hb⟩
    exact sameEffects_executeIn (hflags n b (hprompt.imp_right And.left))
      (hflags n' b' (hprompt.imp_right And.right))
      (sameEffects_perform_congr rfl rfl (hprompts.options _) (hprompts.options _)
        (Options.source_congr rfl) rfl)
  · intro tree w bytes arguments arguments' o o' file hfile hopen hread hprompts ho hinput
      ho' hinput' houtput
    exact sameEffects_executeIn ho ho' (sameEffects_perform_congr rfl rfl (hprompts.options o)
      (Options.promptsPass_of_input w hinput')
      (Options.source_of_holds hinput hinput' hfile hopen hread) houtput)
  · intro tree w bytes before after o last file hfile hopen hread hprompts hvalue hbefore
      hdashes hlast hinput
    have hmore := readArguments_input hvalue (ne_empty_of_holds hfile)
    have hlast' := readArguments_insert hbefore hdashes hmore (dashes_not_mem_input hvalue) hlast
      ⟨.inl hinput, .inr rfl, .inr rfl⟩
    have hfiles : (last.merge { input := some file }).input = some file := by
      rw [Options.merge, hinput]
      rfl
    have houtput : (last.merge { input := some file }).outputPath = last.outputPath := by
      simp [Options.merge, Options.outputPath]
    exact sameEffects_executeIn hlast hlast' (sameEffects_perform_congr rfl rfl
      (hprompts.options last) (Options.promptsPass_of_input w hfiles)
      (Options.source_of_holds hinput hfiles hfile hopen hread) houtput)
  · intro tree w arguments o hprompts ho
    have hpipe : Surroundings.PromptsPass { w with isTerminal := false } :=
      fun hterminal => absurd hterminal Bool.false_ne_true
    exact sameEffects_executeIn ho ho
      (sameEffects_perform_congr rfl rfl (hpipe.options o) (hprompts.options o) rfl rfl)

end LinProg.Command
