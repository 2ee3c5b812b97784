import LinProg.Proofs.Model.Layout
import LinProg.Proofs.Session.Blank
import LinProg.Proofs.Session.Failure
import LinProg.Proofs.Statement.Direction
import LinProg.Proofs.Statement.ZeroFree

set_option autoImplicit false

/-! # Problems in two directions

Two problems of which one is to be made large what the other is to be made small, and which agree in
all other lines, come to the same: to models that differ in the signs of the costs alone
(`Model.Dual`), or to the same fault at the same place. A variable whose total in the objective is
zero has the cost `+0` in both. This holds for lists of lines and for whole texts. -/

namespace LinProg

open Text Grammar

/-! ## Models -/

/-- Whether two models differ only in that the costs of the variables of an objective, which are the
    costs of the second one, are negated in the first one. -/
structure Model.Dual (objective : Expression) (m m' : Model) : Prop where
  names : m.names = m'.names
  matrix : m.matrix = m'.matrix
  bounds : m.bounds = m'.bounds
  relations : m.relations = m'.relations
  nonnegative : m.nonnegative = m'.nonnegative
  /-- A variable of the objective has a cost other than zero. -/
  cost_of_mem : ∀ (j : Nat) (name : String), m'.names[j]? = some name → name ∈ objective.names →
    ∃ c, c.isZero = false ∧ m'.costs[j]? = some c ∧ m.costs[j]? = some (-c)
  cost_of_not_mem : ∀ (j : Nat) (name : String), m'.names[j]? = some name →
    name ∉ objective.names → m'.costs[j]? = some 0 ∧ m.costs[j]? = some 0

namespace Problem

variable {e e' : Expression} (rs : List Restriction) (ss : List SignRestriction)

theorem names_eq_of_opposite (h : e.Opposite e') : names ⟨e, rs, ss⟩ = names ⟨e', rs, ss⟩ := by
  refine names_congr fun name => ?_
  rw [mem_names, mem_names, h.names]

theorem dual_assemble (h : e.Opposite e') (hzero : e'.ZeroFree) :
    Model.Dual e' (assemble ⟨e, rs, ss⟩) (assemble ⟨e', rs, ss⟩) := by
  have hnames := names_eq_of_opposite rs ss h
  refine ⟨?_, ?_, ?_, ?_, ?_, ?_, ?_⟩
  · rw [names_assemble, names_assemble, hnames]
  · rw [matrix_assemble, matrix_assemble, hnames]
  · rw [bounds_assemble, bounds_assemble]
  · rw [relations_assemble, relations_assemble]
  · rw [nonnegative_assemble, nonnegative_assemble, hnames]
    rfl
  · intro j name hname hmem
    obtain ⟨c, hc⟩ := Option.isSome_iff_exists.1 (Expression.mem_names.1 hmem)
    rw [names_assemble] at hname
    refine ⟨c, hzero name c hc, ?_, ?_⟩
    · rw [costs_assemble, List.getElem?_map, hname, Option.map_some, Expression.coeff, hc]
      rfl
    · rw [costs_assemble, hnames, List.getElem?_map, hname, Option.map_some, Expression.coeff,
        h.coeff?, hc]
      rfl
  · intro j name hname hmem
    have hzero' : e'.coeff name = 0 := Expression.coeff_of_not_mem_names hmem
    have hzero : e.coeff name = 0 := Expression.coeff_of_not_mem_names (h.names ▸ hmem)
    rw [names_assemble] at hname
    rw [costs_assemble, costs_assemble, hnames, List.getElem?_map, List.getElem?_map, hname]
    simp only [Option.map_some, hzero, hzero', and_self]

end Problem

/-! ## Lines -/

/-- What the results of two compilations have in common whose first lines state an objective in two
    directions: models that are dual for that objective, or errors that differ in no more than the
    text of the line. -/
inductive DualResults (first' : String) :
    Except CompileError Model → Except CompileError Model → Prop
  | compiled {objective : Expression} {dropped : List Char} {m m' : Model}
      (hobjective : parseObjective first' = .ok (objective, dropped))
      (hdual : Model.Dual objective m m') : DualResults first' (.ok m) (.ok m')
  | failed (number : Nat) (phase : Phase) (fault : Fault) (line line' : String) (offset : Nat) :
      DualResults first' (.error (.statement number phase ⟨fault, line, offset⟩))
        (.error (.statement number phase ⟨fault, line', offset⟩))

/-- A section that cannot be read fails on a statement. -/
theorem exists_of_readSection_error {α : Type} {phase : Phase}
    {parse : String → Except ParseError α} {number : Nat} {lines : List String}
    {err : CompileError} (h : readSection phase parse number lines = .error err) :
    ∃ number e, err = .statement number phase e := by
  induction lines generalizing number with
  | nil => cases h
  | cons line lines ih =>
    rw [readSection] at h
    cases hparse : parse line with
    | error e =>
      rw [hparse] at h
      cases h
      exact ⟨number, e, rfl⟩
    | ok a =>
      rw [hparse] at h
      exact ih (map_eq_error_iff.1 h)

namespace Session

variable (leading : Space) (body : List Char)

/-- The lines after the first one are read alike. -/
theorem dualResults_readAll (rest : List String) :
    DualResults (objectiveLine leading body .minimize)
      (new.readAll (objectiveLine leading body .maximize :: rest))
      (new.readAll (objectiveLine leading body .minimize :: rest)) := by
  have hdual := dualObjectives_parseObjective leading body
  rw [readAll_new, readAll_new]
  generalize hobjective' : parseObjective (objectiveLine leading body .minimize) = parsed' at hdual
  generalize parseObjective (objectiveLine leading body .maximize) = parsed at hdual
  cases hdual with
  | failed fault offset => exact .failed ..
  | @read e e' dropped dropped' hopposite hend =>
    dsimp only
    cases hrs : readSection .restrictions parseRestriction 2 (sectionLines rest) with
    | error err =>
      obtain ⟨number, e, rfl⟩ := exists_of_readSection_error hrs
      exact .failed ..
    | ok rs =>
      cases hss : readSection .signRestrictions parseSignRestriction
          (3 + (sectionLines rest).length) (sectionLines (afterSection rest)) with
      | error err =>
        obtain ⟨number, e, rfl⟩ := exists_of_readSection_error hss
        exact .failed ..
      | ok ss =>
        exact .compiled hobjective'
          (Problem.dual_assemble rs ss hopposite (zeroFree_of_parseObjective hobjective'))

end Session

/-! ## Texts -/

/-- White space with a line feed in it puts a line of white space first, whatever comes after it. -/
theorem exists_blank_line {leading : Space} (h : '\n' ∈ leading.chars) :
    ∃ first : Space, ∀ text, ∃ lines : List (List Char),
      LinesOf '\n' '\r' (leading.chars ++ text) (first.chars :: lines) := by
  obtain ⟨before, more, hchars, hbefore⟩ := List.eq_append_cons_of_mem h
  have hwhite : ∀ c ∈ before, isWhiteSpace c = true := by
    intro c hc
    exact leading.all_white c (hchars ▸ List.mem_append_left _ hc)
  by_cases hlast : before.getLast? = some '\r'
  · obtain ⟨line, rfl⟩ := List.getLast?_eq_some_iff.1 hlast
    have hline : '\n' ∉ line := fun hmem => hbefore (List.mem_append_left _ hmem)
    refine ⟨⟨line, fun c hc => hwhite c (List.mem_append_left _ hc)⟩, fun text => ?_⟩
    obtain ⟨lines, hlines⟩ := exists_linesOf '\n' '\r' (more ++ text)
    exact ⟨lines, by simpa [hchars] using LinesOf.endedWithReturn hline hlines⟩
  · refine ⟨⟨before, hwhite⟩, fun text => ?_⟩
    obtain ⟨lines, hlines⟩ := exists_linesOf '\n' '\r' (more ++ text)
    exact ⟨lines, by simpa [hchars] using LinesOf.ended hbefore hlast hlines⟩

theorem getLast?_keyword_ne (d : Direction) (c : Char) (before : List Char)
    (h : c ≠ 'x' ∧ c ≠ 'n') : (before ++ d.keyword).getLast? ≠ some c := by
  cases d with
  | maximize => simp [Direction.keyword, List.getLast?_append, h.1.symm]
  | minimize => simp [Direction.keyword, List.getLast?_append, h.2.symm]

/-- The first line of a text is the objective line, and the other lines are those of what comes
    after the keyword. -/
theorem linesOf_objectiveLine {leading : Space} (h : '\n' ∉ leading.chars) (d : Direction)
    {body : List Char} {lines : List (List Char)} (hlines : LinesOf '\n' '\r' body lines) :
    LinesOf '\n' '\r' (objectiveLine leading body d).toList
      ((objectiveLine leading (lines.headD []) d).toList :: lines.tail) := by
  have hkeyword : '\n' ∉ d.keyword := by
    cases d <;> decide
  have hne : leading.chars ++ d.keyword ≠ [] := by
    cases d <;> simp [Direction.keyword]
  have happend := hlines.append (leading.chars ++ d.keyword) hne (by simp [h, hkeyword])
    (getLast?_keyword_ne d '\r' _ (by decide))
  simpa [objectiveLine] using happend

/-- **Maximizing and minimizing are dual.** Of two lines with the keywords `max` and `min` behind
    the same white space and before the same text, both are read as opposite objectives that end at
    the same position, or both have the same fault at the same position. Problems that start with
    the two lines and go on alike, as lines or as a text, compile to models that differ only in the
    signs of the costs of the objective's variables, or fail with the same fault at the same
    place. -/
theorem objective_directions_dual (leading : Space) (body : List Char) :
    DualObjectives (objectiveLine leading body .maximize) (objectiveLine leading body .minimize)
      (parseObjective (objectiveLine leading body .maximize))
      (parseObjective (objectiveLine leading body .minimize)) ∧
    (∀ rest : List String,
      DualResults (objectiveLine leading body .minimize)
        (Session.new.readAll (objectiveLine leading body .maximize :: rest))
        (Session.new.readAll (objectiveLine leading body .minimize :: rest))) ∧
    ∃ lines, LinesOf '\n' '\r' body lines ∧
      DualResults (objectiveLine leading (lines.headD []) .minimize)
        (compileText (objectiveLine leading body .maximize)).result
        (compileText (objectiveLine leading body .minimize)).result := by
  refine ⟨dualObjectives_parseObjective leading body, Session.dualResults_readAll leading body, ?_⟩
  obtain ⟨lines, hlines⟩ := exists_linesOf '\n' '\r' body
  refine ⟨lines, hlines, ?_⟩
  by_cases hfeed : '\n' ∈ leading.chars
  · -- The first line is blank in both texts, and the keywords come too late.
    obtain ⟨first, hfirst⟩ := exists_blank_line hfeed
    have hresult : ∀ d, (compileText (objectiveLine leading body d)).result =
        .error (.statement 1 .objective
          ⟨.missingDirection, .ofList first.chars, byteLength first.chars⟩) := by
      intro d
      obtain ⟨lines, hlines⟩ := hfirst (d.keyword ++ body)
      rw [objectiveLine, result_compileText (by rwa [String.toList_ofList]), List.map_cons,
        readAll_blank]
    rw [hresult, hresult]
    exact .failed ..
  · have hresult : ∀ d, (compileText (objectiveLine leading body d)).result =
        Session.new.readAll
          (objectiveLine leading (lines.headD []) d :: lines.tail.map String.ofList) := by
      intro d
      rw [result_compileText (linesOf_objectiveLine hfeed d hlines), List.map_cons,
        String.ofList_toList]
    rw [hresult, hresult]
    exact Session.dualResults_readAll leading _ _

end LinProg
