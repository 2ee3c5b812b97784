import Mathlib.Data.List.Forall2
import LinProg.Proofs.Session.Step

set_option autoImplicit false

/-! # The sections of a problem

What a session makes of a list of lines, said without the session: the first line is the objective,
the lines up to the first blank one are restrictions, those up to the next blank one are sign
restrictions, and the rest is ignored. `Statement` is a line with its number and with the phase in
which it is read, and `statements` lists all of them. `Reading` is the outcome of a list of lines:
the model of what the statements say, or the error of the first one that cannot be read.

The session is related to it in two steps. `readSection` reads the lines of one section, and
`readAll_of_restrictions` and `readAll_of_signRestrictions` take a session from any point of a
section to the end of the input; the outcomes of `readSection` are then those of the section's
statements. -/

namespace LinProg

open Text

/-! ## Sections -/

/-- Whether a line is not blank. -/
def isWritten (line : String) : Bool :=
  !isBlank line.toList

/-- The lines before the first blank one. -/
def sectionLines (lines : List String) : List String :=
  lines.takeWhile isWritten

/-- The lines after the first blank one. -/
def afterSection (lines : List String) : List String :=
  (lines.dropWhile isWritten).drop 1

theorem sectionLines_cons_blank {line : String} (lines : List String)
    (h : isBlank line.toList = true) : sectionLines (line :: lines) = [] := by
  simp [sectionLines, isWritten, h]

theorem sectionLines_cons_written {line : String} (lines : List String)
    (h : ¬ isBlank line.toList = true) :
    sectionLines (line :: lines) = line :: sectionLines lines := by
  simp [sectionLines, isWritten, h]

theorem afterSection_cons_blank {line : String} (lines : List String)
    (h : isBlank line.toList = true) : afterSection (line :: lines) = lines := by
  simp [afterSection, isWritten, h]

theorem afterSection_cons_written {line : String} (lines : List String)
    (h : ¬ isBlank line.toList = true) :
    afterSection (line :: lines) = afterSection lines := by
  simp [afterSection, isWritten, h]

/-- A section, its blank line if there is one, and what comes after it make up the lines. -/
theorem getElem?_afterSection (lines : List String) (i : Nat) {line : String}
    (h : (afterSection lines)[i]? = some line) :
    lines[(sectionLines lines).length + 1 + i]? = some line := by
  induction lines with
  | nil => simp [afterSection] at h
  | cons first rest ih =>
    by_cases hb : isBlank first.toList = true
    · rw [afterSection_cons_blank rest hb] at h
      rw [sectionLines_cons_blank rest hb, List.length_nil, Nat.zero_add, Nat.add_comm,
        List.getElem?_cons_succ]
      exact h
    · rw [afterSection_cons_written rest hb] at h
      rw [sectionLines_cons_written rest hb, List.length_cons,
        Nat.add_right_comm _ 1 i, List.getElem?_cons_succ]
      exact ih h

theorem getElem?_sectionLines (lines : List String) (i : Nat) {line : String}
    (h : (sectionLines lines)[i]? = some line) : lines[i]? = some line := by
  obtain ⟨hi, hline⟩ := List.getElem?_eq_some_iff.1 h
  rw [← hline]
  exact List.prefix_iff_getElem?.1 (List.takeWhile_prefix isWritten) i hi

/-! ## Statements -/

/-- A line that is to be read in a phase. Lines are counted from one. -/
structure Statement where
  number : Nat
  phase : Phase
  line : String

namespace Statement

/-- Whether the statement can be read, and what is wrong with it otherwise. -/
def check (s : Statement) : Except ParseError Unit :=
  match s.phase with
  | .objective => (parseObjective s.line).map fun _ => ()
  | .restrictions => (parseRestriction s.line).map fun _ => ()
  | .signRestrictions => (parseSignRestriction s.line).map fun _ => ()
  | .assembled => .ok ()

/-- The error that the statement ends a compilation with. -/
def error? (s : Statement) : Option CompileError :=
  match s.check with
  | .error e => some (.statement s.number s.phase e)
  | .ok _ => none

/-- The statements of a section whose first line has the given number. -/
def ofSection (phase : Phase) (number : Nat) (lines : List String) : List Statement :=
  (lines.zipIdx number).map fun entry => ⟨entry.2, phase, entry.1⟩

end Statement

/-- The statements that a list of lines consists of. -/
def statements : List String → List Statement
  | [] => []
  | first :: rest =>
    ⟨1, .objective, first⟩ :: Statement.ofSection .restrictions 2 (sectionLines rest) ++
      Statement.ofSection .signRestrictions (3 + (sectionLines rest).length)
        (sectionLines (afterSection rest))

/-- What a list of lines comes to. -/
inductive Reading : List String → Except CompileError Model → Prop
  /-- There is no line at all. -/
  | empty : Reading [] (.error .missingObjective)
  /-- Every line of every section can be read. -/
  | accepted {first : String} {rest : List String} {objective : Expression} {dropped : List Char}
      {rs : List Restriction} {ss : List SignRestriction}
      (h₁ : parseObjective first = .ok (objective, dropped))
      (h₂ : List.Forall₂ (fun line r => parseRestriction line = .ok r) (sectionLines rest) rs)
      (h₃ : List.Forall₂ (fun line s => parseSignRestriction line = .ok s)
        (sectionLines (afterSection rest)) ss) :
      Reading (first :: rest) (.ok (Problem.assemble ⟨objective, rs, ss⟩))
  /-- Some statement cannot be read, and all before it can. -/
  | rejected {lines : List String} {before after : List Statement} {s : Statement} {e : ParseError}
      (h₁ : statements lines = before ++ s :: after)
      (h₂ : ∀ t ∈ before, t.check = .ok ())
      (h₃ : s.check = .error e) :
      Reading lines (.error (.statement s.number s.phase e))

theorem mem_ofSection {phase : Phase} {number : Nat} {lines : List String} {s : Statement}
    (h : s ∈ Statement.ofSection phase number lines) :
    ∃ i, s.number = number + i ∧ s.phase = phase ∧ lines[i]? = some s.line := by
  obtain ⟨⟨line, n⟩, hmem, rfl⟩ := List.mem_map.1 h
  obtain ⟨i, hi⟩ := List.mem_iff_getElem?.1 hmem
  rw [List.getElem?_zipIdx, Option.map_eq_some_iff] at hi
  obtain ⟨a, ha, heq⟩ := hi
  cases heq
  exact ⟨i, rfl, rfl, ha⟩

/-- The number of a statement is the place of its line among all lines. -/
theorem getElem?_statements {lines : List String} {s : Statement} (h : s ∈ statements lines) :
    0 < s.number ∧ lines[s.number - 1]? = some s.line := by
  cases lines with
  | nil => simp [statements] at h
  | cons first rest =>
    simp only [statements, List.cons_append, List.mem_cons, List.mem_append] at h
    rcases h with rfl | h | h
    · exact ⟨Nat.one_pos, rfl⟩
    · obtain ⟨i, hnumber, -, hline⟩ := mem_ofSection h
      have hi := getElem?_sectionLines rest i hline
      refine ⟨by omega, ?_⟩
      rw [hnumber, show 2 + i - 1 = i + 1 by omega, List.getElem?_cons_succ, hi]
    · obtain ⟨i, hnumber, -, hline⟩ := mem_ofSection h
      have hi := getElem?_afterSection rest i (getElem?_sectionLines _ i hline)
      refine ⟨by omega, ?_⟩
      rw [hnumber, show 3 + (sectionLines rest).length + i - 1 =
        (sectionLines rest).length + 1 + i + 1 by omega, List.getElem?_cons_succ, hi]

/-! ## Reading one section -/

/-- Read the lines of a section up to the first that cannot be read. The first one has the given
    number. -/
def readSection {α : Type} (phase : Phase) (parse : String → Except ParseError α) :
    Nat → List String → Except CompileError (List α)
  | _, [] => .ok []
  | number, line :: lines =>
    match parse line with
    | .error e => .error (.statement number phase e)
    | .ok a => (readSection phase parse (number + 1) lines).map (a :: ·)

section ReadSection

variable {α : Type} {phase : Phase} {parse : String → Except ParseError α}

theorem readSection_eq_ok_iff {number : Nat} {lines : List String} {as : List α} :
    readSection phase parse number lines = .ok as ↔
      List.Forall₂ (fun line a => parse line = .ok a) lines as := by
  induction lines generalizing number as with
  | nil =>
    rw [List.forall₂_nil_left_iff]
    constructor
    · intro h
      cases h
      rfl
    · rintro rfl
      rfl
  | cons line lines ih =>
    simp only [readSection]
    cases hp : parse line with
    | error e =>
      constructor
      · intro h
        cases h
      · intro h
        cases h with
        | cons hline _ => simp [hp] at hline
    | ok a =>
      cases hr : readSection phase parse (number + 1) lines with
      | error err =>
        constructor
        · intro h
          cases h
        · intro h
          cases h with
          | cons _ hlines => simp [ih.2 hlines] at hr
      | ok bs =>
        rw [List.forall₂_cons_left_iff]
        constructor
        · intro h
          cases h
          exact ⟨a, bs, hp, ih.1 hr, rfl⟩
        · rintro ⟨b, cs, hline, hlines, rfl⟩
          rw [ih.2 hlines] at hr
          rw [hp] at hline
          cases hr
          cases hline
          rfl

variable (phase parse) in
/-- A section fails with the error of its first statement that cannot be read. -/
theorem findSome?_ofSection (number : Nat) (lines : List String)
    (hcheck : ∀ n line, (Statement.mk n phase line).check = (parse line).map fun _ => ()) :
    (Statement.ofSection phase number lines).findSome? Statement.error? =
      match readSection phase parse number lines with
      | .error err => some err
      | .ok _ => none := by
  induction lines generalizing number with
  | nil => rfl
  | cons line lines ih =>
    simp only [readSection, Statement.ofSection, List.zipIdx_cons, List.map_cons,
      List.findSome?_cons, Statement.error?, hcheck]
    cases hp : parse line with
    | error e => rfl
    | ok a =>
      refine (ih (number + 1)).trans ?_
      cases readSection phase parse (number + 1) lines <;> rfl

end ReadSection

/-! ## Sessions on whole inputs -/

namespace Session

/-- Take all lines, stopping at the first error, and end the input. -/
def readAll (s : Session) (lines : List String) : Except CompileError Model :=
  (s.feedAll lines).bind finish

@[simp] theorem readAll_nil (s : Session) : s.readAll [] = s.finish := rfl

theorem readAll_cons (s : Session) (line : String) (lines : List String) :
    s.readAll (line :: lines) = (s.feed line).bind fun s' => s'.readAll lines := by
  simp only [readAll, feedAll, List.foldlM_cons]
  cases s.feed line <;> rfl

/-- Once there is a model, the lines that are left do not bear on the end. -/
theorem readAll_of_assembled {s : Session} (h : s.phase = .assembled) (lines : List String) :
    s.readAll lines = s.finish := by
  rw [readAll, feedAll_of_assembled h]
  exact finish_with_lineNumber s _

/-- From any point of the sign restrictions on. -/
theorem readAll_of_signRestrictions {s : Session} {e : Expression}
    (hphase : s.phase = .signRestrictions) (hobjective : s.objective? = some e)
    (lines : List String) :
    s.readAll lines =
      (readSection .signRestrictions parseSignRestriction (s.lineNumber + 1)
        (sectionLines lines)).map fun more =>
          Problem.assemble ⟨e, s.restrictions, s.signRestrictions ++ more⟩ := by
  induction lines generalizing s with
  | nil =>
    have hopen : s.phase ≠ .assembled := by simp [hphase]
    rw [readAll_nil, finish_of_objective hopen hobjective, sectionLines, List.takeWhile_nil,
      readSection, Except.map, List.append_nil]
  | cons line lines ih =>
    rw [readAll_cons, feed, step_of_signRestrictions hphase]
    by_cases hb : isBlank line.toList = true
    · -- The model is assembled here, and what comes after does not change it.
      rw [sectionLines_cons_blank lines hb, if_pos hb, hobjective, readSection]
      simp only [Except.map, Except.bind, List.append_nil]
      rw [readAll_of_assembled rfl]
      exact finish_of_assembled rfl rfl
    · rw [sectionLines_cons_written lines hb, if_neg hb, readSection]
      cases parseSignRestriction line with
      | error err => rfl
      | ok r =>
        refine (ih (s := { s with
          lineNumber := s.lineNumber + 1
          signRestrictions := s.signRestrictions ++ [r] }) hphase hobjective).trans ?_
        cases readSection .signRestrictions parseSignRestriction (s.lineNumber + 1 + 1)
          (sectionLines lines) <;> simp [Except.map]

/-- From any point of the restrictions on. -/
theorem readAll_of_restrictions {s : Session} {e : Expression} (hphase : s.phase = .restrictions)
    (hobjective : s.objective? = some e) (hsigns : s.signRestrictions = [])
    (lines : List String) :
    s.readAll lines =
      (readSection .restrictions parseRestriction (s.lineNumber + 1) (sectionLines lines)).bind
        fun more =>
          (readSection .signRestrictions parseSignRestriction
            (s.lineNumber + 2 + (sectionLines lines).length)
            (sectionLines (afterSection lines))).map
              fun ss => Problem.assemble ⟨e, s.restrictions ++ more, ss⟩ := by
  induction lines generalizing s with
  | nil =>
    have hopen : s.phase ≠ .assembled := by simp [hphase]
    rw [readAll_nil, finish_of_objective hopen hobjective, hsigns]
    simp only [sectionLines, afterSection, List.takeWhile_nil, List.dropWhile_nil,
      List.drop_nil, readSection, Except.bind, Except.map, List.append_nil]
  | cons line lines ih =>
    rw [readAll_cons, feed, step_of_restrictions hphase]
    by_cases hb : isBlank line.toList = true
    · -- The next section starts after the blank line, with nothing read of it.
      rw [sectionLines_cons_blank lines hb, afterSection_cons_blank lines hb, if_pos hb,
        readSection]
      simp only [Except.bind, Except.map, List.append_nil, List.length_nil, Nat.add_zero]
      refine (readAll_of_signRestrictions (s := { s with
        phase := .signRestrictions
        lineNumber := s.lineNumber + 1 }) rfl hobjective lines).trans ?_
      simp only [hsigns, List.nil_append]
      rfl
    · rw [sectionLines_cons_written lines hb, afterSection_cons_written lines hb, if_neg hb,
        readSection]
      cases parseRestriction line with
      | error err => rfl
      | ok r =>
        refine (ih (s := { s with
          lineNumber := s.lineNumber + 1
          restrictions := s.restrictions ++ [r] }) hphase hobjective hsigns).trans ?_
        rw [List.length_cons, show s.lineNumber + 1 + 2 + (sectionLines lines).length =
          s.lineNumber + 2 + ((sectionLines lines).length + 1) by omega]
        cases readSection .restrictions parseRestriction (s.lineNumber + 1 + 1)
          (sectionLines lines) <;> simp [Except.map, Except.bind]

/-- A session reads the objective and then the two sections. -/
theorem readAll_new (first : String) (rest : List String) :
    new.readAll (first :: rest) =
      match parseObjective first with
      | .error e => .error (.statement 1 .objective e)
      | .ok (e, _) =>
        (readSection .restrictions parseRestriction 2 (sectionLines rest)).bind fun rs =>
          (readSection .signRestrictions parseSignRestriction (3 + (sectionLines rest).length)
            (sectionLines (afterSection rest))).map fun ss => Problem.assemble ⟨e, rs, ss⟩ := by
  rw [readAll_cons, feed, step_of_objective rfl]
  cases parseObjective first with
  | error e => rfl
  | ok r => exact readAll_of_restrictions rfl rfl rfl rest

/-- A session ends with a model exactly when all sections can be read. -/
theorem readAll_eq_ok_iff {first : String} {rest : List String} {m : Model} :
    new.readAll (first :: rest) = .ok m ↔ Reading (first :: rest) (.ok m) := by
  rw [readAll_new]
  constructor
  · intro h
    split at h
    · cases h
    · next e dropped hfirst =>
      cases hrs : readSection .restrictions parseRestriction 2 (sectionLines rest) with
      | error err => simp [hrs, Except.bind] at h
      | ok rs =>
        cases hss : readSection .signRestrictions parseSignRestriction
            (3 + (sectionLines rest).length) (sectionLines (afterSection rest)) with
        | error err => simp [hrs, hss, Except.bind, Except.map] at h
        | ok ss =>
          simp only [hrs, hss, Except.bind, Except.map, Except.ok.injEq] at h
          rw [← h]
          exact .accepted hfirst (readSection_eq_ok_iff.1 hrs) (readSection_eq_ok_iff.1 hss)
  · intro h
    cases h with
    | accepted hfirst hrs hss =>
      simp only [hfirst, readSection_eq_ok_iff.2 hrs, readSection_eq_ok_iff.2 hss, Except.bind,
        Except.map]

/-- A session ends with the error of the first statement that cannot be read. -/
theorem findSome?_statements (first : String) (rest : List String) :
    (statements (first :: rest)).findSome? Statement.error? =
      match new.readAll (first :: rest) with
      | .error err => some err
      | .ok _ => none := by
  rw [readAll_new, statements, List.cons_append, List.findSome?_cons, List.findSome?_append,
    findSome?_ofSection .restrictions parseRestriction 2 _ fun _ _ => rfl,
    findSome?_ofSection .signRestrictions parseSignRestriction _ _ fun _ _ => rfl]
  simp only [Statement.error?, Statement.check]
  cases parseObjective first with
  | error e => rfl
  | ok r =>
    cases readSection .restrictions parseRestriction 2 (sectionLines rest) with
    | error err => rfl
    | ok rs =>
      simp only [Except.map, Except.bind, Option.none_or]
      cases readSection .signRestrictions parseSignRestriction (3 + (sectionLines rest).length)
        (sectionLines (afterSection rest)) <;> rfl

theorem readAll_eq_error_iff {first : String} {rest : List String} {err : CompileError} :
    new.readAll (first :: rest) = .error err ↔
      (statements (first :: rest)).findSome? Statement.error? = some err := by
  rw [findSome?_statements]
  cases new.readAll (first :: rest) <;> simp

end Session

theorem error?_eq_none_iff {s : Statement} : s.error? = none ↔ s.check = .ok () := by
  rw [Statement.error?]
  cases s.check <;> simp

theorem error?_eq_some_iff {s : Statement} {err : CompileError} :
    s.error? = some err ↔ ∃ e, s.check = .error e ∧ err = .statement s.number s.phase e := by
  rw [Statement.error?]
  cases s.check with
  | error e => simp [eq_comm]
  | ok u => simp

/-- A reading that fails does so at the first statement that cannot be read. -/
theorem reading_error_iff {first : String} {rest : List String} {err : CompileError} :
    Reading (first :: rest) (.error err) ↔
      (statements (first :: rest)).findSome? Statement.error? = some err := by
  rw [List.findSome?_eq_some_iff]
  constructor
  · intro h
    cases h with
    | rejected hsplit hbefore hs =>
      refine ⟨_, _, _, hsplit, error?_eq_some_iff.2 ⟨_, hs, rfl⟩, ?_⟩
      intro t ht
      exact error?_eq_none_iff.2 (hbefore t ht)
  · rintro ⟨before, s, after, hsplit, hs, hbefore⟩
    obtain ⟨e, hcheck, rfl⟩ := error?_eq_some_iff.1 hs
    refine .rejected hsplit ?_ hcheck
    intro t ht
    exact error?_eq_none_iff.1 (hbefore t ht)

/-- **A session reads its input section by section.** Taking all lines up to the first error and
    then ending the input has exactly the outcome that the sections of the input have, and the
    number of a statement is the place of its line in the input, counted from one. -/
theorem readAll_new_iff_reading (lines : List String) :
    (∀ result, Session.new.readAll lines = result ↔ Reading lines result) ∧
      ∀ s ∈ statements lines, 0 < s.number ∧ lines[s.number - 1]? = some s.line := by
  constructor
  · intro result
    cases lines with
    | nil =>
      rw [Session.readAll_nil]
      constructor
      · rintro rfl
        exact .empty
      · intro h
        cases h with
        | empty => rfl
        | rejected hsplit => simp [statements] at hsplit
    | cons first rest =>
      cases result with
      | ok m => exact Session.readAll_eq_ok_iff
      | error err => rw [Session.readAll_eq_error_iff, reading_error_iff]
  · intro s hs
    exact getElem?_statements hs

end LinProg
