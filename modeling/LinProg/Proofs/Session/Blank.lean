import LinProg.Proofs.Expression.Reading
import LinProg.Proofs.Session.Problem

set_option autoImplicit false

/-! # Blank lines

Once the objective was read, the end of the input comes to the same as any number of blank lines: it
closes the sections that are still open, while each of the lines closes one (`Closes`). So blank
lines at the end of an input change nothing (`readAll_append_blank`). It is otherwise before the
objective: there a blank line is a statement that cannot be read (`readAll_blank`). -/

namespace LinProg

open Text Grammar

/-- White space as a line. -/
def Grammar.Space.line (b : Space) : String :=
  .ofList b.chars

theorem isBlank_iff {line : String} : isBlank line.toList = true ↔ ∃ b : Space, b.line = line := by
  rw [isBlank, List.all_eq_true]
  constructor
  · intro h
    exact ⟨⟨line.toList, h⟩, String.ofList_toList⟩
  · rintro ⟨b, rfl⟩
    rw [Space.line, String.toList_ofList]
    exact b.all_white

namespace Session

/-! ## Blank lines after the objective -/

/-- What a number of blank lines makes of a session: it ends with the same result, and each line
    takes it to the next phase as long as there is one. -/
structure Closes (s s' : Session) (count : Nat) : Prop where
  finish : s'.finish = s.finish
  rank : s'.phase.rank = min 3 (s.phase.rank + count)

theorem exists_feed_blank {s : Session} {fed : Nat} (h : s.Coherent fed)
    (hphase : s.phase ≠ .objective) (b : Space) :
    ∃ s', s.feed b.line = .ok s' ∧ s.Closes s' 1 := by
  have hblank := isBlank_iff.2 ⟨b, rfl⟩
  obtain ⟨e, hobjective⟩ := h.exists_objective hphase
  cases hphase' : s.phase with
  | objective => exact absurd hphase' hphase
  | restrictions =>
    have hfinish := finish_of_objective (s := s) (by simp [hphase']) hobjective
    refine ⟨_, feed_eq_ok_iff.2 ⟨_, .restrictionsEnd hphase' hblank⟩, ?_, by rw [hphase']; rfl⟩
    rw [hfinish]
    exact finish_of_objective Phase.noConfusion hobjective
  | signRestrictions =>
    have hfinish := finish_of_objective (s := s) (by simp [hphase']) hobjective
    refine ⟨_, feed_eq_ok_iff.2 ⟨_, .signRestrictionsEnd hphase' hblank hobjective⟩, ?_,
      by rw [hphase']; rfl⟩
    rw [hfinish]
    exact finish_of_assembled rfl rfl
  | assembled =>
    exact ⟨_, feed_of_assembled hphase' b.line, finish_with_lineNumber s _, by rw [hphase']; rfl⟩

theorem exists_feedAll_blank {s : Session} {fed : Nat} (h : s.Coherent fed)
    (hphase : s.phase ≠ .objective) (blanks : List Space) :
    ∃ s', s.feedAll (blanks.map Space.line) = .ok s' ∧ s.Closes s' blanks.length := by
  induction blanks generalizing s fed with
  | nil =>
    exact ⟨s, rfl, rfl, (Nat.min_eq_right s.phase.rank_le).symm⟩
  | cons b blanks ih =>
    obtain ⟨t, ht, hone⟩ := exists_feed_blank h hphase b
    have hphase' : t.phase ≠ .objective := by
      rw [Phase.ne_objective_iff, hone.rank]
      omega
    obtain ⟨s', hs', hmore⟩ := ih (h.feed ht) hphase'
    refine ⟨s', feedAll_cons_eq_ok_iff.2 ⟨t, ht, hs'⟩, hmore.finish.trans hone.finish, ?_⟩
    rw [hmore.rank, hone.rank, List.length_cons]
    omega

/-! ## Results -/

/-- Only a missing objective keeps a session from ending with a model. -/
theorem finish_eq_error_iff {s : Session} {fed : Nat} (h : s.Coherent fed) {err : CompileError} :
    s.finish = .error err ↔ s.phase = .objective ∧ err = .missingObjective := by
  rw [← h.objective]
  constructor
  · intro herror
    refine ⟨Option.eq_none_iff_forall_ne_some.2 fun e he => ?_,
      eq_missingObjective_of_finish herror⟩
    rw [(finish_eq_ok_iff h).2 ⟨_, by rw [problem?, he, Option.map_some], rfl⟩] at herror
    cases herror
  · rintro ⟨hnone, rfl⟩
    refine finish_of_no_objective ?_ hnone
    rw [h.objective.1 hnone]
    exact Phase.noConfusion

theorem readAll_append (s : Session) (lines more : List String) :
    s.readAll (lines ++ more) = (s.feedAll lines).bind fun s' => s'.readAll more := by
  rw [readAll, feedAll_append]
  cases s.feedAll lines <;> rfl

/-- Every session that was given a line has its objective. -/
theorem phase_ne_objective_of_feedAll {s : Session} {line : String} {lines : List String}
    (h : new.feedAll (line :: lines) = .ok s) : s.phase ≠ .objective := by
  obtain ⟨t, ht, hrest⟩ := feedAll_cons_eq_ok_iff.1 h
  obtain ⟨messages, haccepts⟩ := feed_eq_ok_iff.1 ht
  have hphase : t.phase ≠ .objective := by
    cases haccepts with
    | objective => exact Phase.noConfusion
    | _ hother => cases hother
  rw [Phase.ne_objective_iff] at hphase ⊢
  exact Nat.lt_of_lt_of_le hphase (rank_le_of_feedAll hrest)

/-- Blank lines after some first line do not change the result. -/
theorem readAll_append_blank (first : String) (rest : List String) (blanks : List Space) :
    new.readAll (first :: rest ++ blanks.map Space.line) = new.readAll (first :: rest) := by
  rw [readAll_append, readAll]
  cases hfeed : new.feedAll (first :: rest) with
  | error e => rfl
  | ok s =>
    obtain ⟨s', hs', hcloses⟩ := exists_feedAll_blank (coherent_of_feedAll hfeed)
      (phase_ne_objective_of_feedAll hfeed) blanks
    show (s.feedAll (blanks.map Space.line)).bind finish = s.finish
    rw [hs', ← hcloses.finish]
    rfl

/-- A session that has its objective goes on with blank lines as it ends, with its model. -/
theorem exists_feedAll_blank_of_objective {lines : List String} {s : Session} {e : Expression}
    (h : new.feedAll lines = .ok s) (he : s.objective? = some e) (blanks : List Space) :
    ∃ s', s.feedAll (blanks.map Space.line) = .ok s' ∧ s.Closes s' blanks.length ∧
      s.finish = .ok (Problem.assemble ⟨e, s.restrictions, s.signRestrictions⟩) := by
  have hcoherent := coherent_of_feedAll h
  have hphase : s.phase ≠ .objective := by
    rw [ne_eq, ← hcoherent.objective, he]
    exact Option.some_ne_none e
  obtain ⟨s', hs', hcloses⟩ := exists_feedAll_blank hcoherent hphase blanks
  refine ⟨s', hs', hcloses, (finish_eq_ok_iff hcoherent).2 ⟨_, ?_, rfl⟩⟩
  rw [problem?, he, Option.map_some]

/-- Two blank lines after the objective complete the problem. -/
theorem exists_feedAll_objective_blank {first : String} {e : Expression} {dropped : List Char}
    (h : parseObjective first = .ok (e, dropped)) (b b' : Space) :
    ∃ s, new.feedAll [first, b.line, b'.line] = .ok s ∧ s.phase = .assembled ∧
      s.finish = .ok (Problem.assemble ⟨e, [], []⟩) := by
  obtain ⟨t, ht, hphase, hfinish⟩ : ∃ t, new.feed first = .ok t ∧ t.phase = .restrictions ∧
      t.finish = .ok (Problem.assemble ⟨e, [], []⟩) :=
    ⟨_, feed_eq_ok_iff.2 ⟨_, .objective rfl h⟩, rfl, finish_of_objective Phase.noConfusion rfl⟩
  have hopen : t.phase ≠ .objective := by simp [hphase]
  obtain ⟨s, hs, hcloses⟩ := exists_feedAll_blank (coherent_new.feed ht) hopen [b, b']
  refine ⟨s, feedAll_cons_eq_ok_iff.2 ⟨t, ht, hs⟩, ?_, hcloses.finish.trans hfinish⟩
  rw [Phase.eq_assembled_iff, hcloses.rank, hphase]
  rfl

end Session

/-- White space as the first line is no objective. -/
theorem readAll_blank (first : Space) (rest : List String) :
    Session.new.readAll (.ofList first.chars :: rest) =
      .error (.statement 1 .objective
        ⟨.missingDirection, .ofList first.chars, byteLength first.chars⟩) := by
  have hparse : parseObjective (.ofList first.chars) = _ :=
    parseObjective_of_isBlank (isBlank_iff.2 ⟨first, rfl⟩)
  rw [Session.readAll_new, hparse, String.toList_ofList]

/-- **The end of the input closes what blank lines close.** The blank lines are those that consist
    of white space. A session that has its objective takes any number of them, going to the next
    phase with each as long as there is one, and ends after them with the model of its statements,
    as it would have without them. Only before the objective a session does not end with a model.
    So blank lines after any lines do not change what these come to, be it a model or an error, and
    two of them right after the objective complete the problem. Where no line comes before it, a
    blank line is an error of its own and not that of the empty input. -/
theorem blank_lines_close_sections :
    (∀ line : String, isBlank line.toList = true ↔ ∃ b : Space, b.line = line) ∧
    (∀ (lines : List String) (s : Session) (e : Expression) (blanks : List Space),
      Session.new.feedAll lines = .ok s → s.objective? = some e →
        ∃ s', s.feedAll (blanks.map Space.line) = .ok s' ∧
          s'.phase.rank = min 3 (s.phase.rank + blanks.length) ∧
          s'.finish = .ok (Problem.assemble ⟨e, s.restrictions, s.signRestrictions⟩) ∧
          s.finish = .ok (Problem.assemble ⟨e, s.restrictions, s.signRestrictions⟩)) ∧
    (∀ (lines : List String) (s : Session) (err : CompileError),
      Session.new.feedAll lines = .ok s →
        (s.finish = .error err ↔ s.phase = .objective ∧ err = .missingObjective)) ∧
    (∀ (first : String) (rest : List String) (blanks : List Space),
      Session.new.readAll (first :: rest ++ blanks.map Space.line) =
        Session.new.readAll (first :: rest)) ∧
    (∀ (first : String) (e : Expression) (dropped : List Char) (b b' : Space),
      parseObjective first = .ok (e, dropped) →
        ∃ s, Session.new.feedAll [first, b.line, b'.line] = .ok s ∧ s.phase = .assembled ∧
          s.finish = .ok (Problem.assemble ⟨e, [], []⟩)) ∧
    Session.new.readAll [] = .error .missingObjective ∧
    ∀ (b : Space) (rest : List String), Session.new.readAll (b.line :: rest) =
      .error (.statement 1 .objective ⟨.missingDirection, b.line, byteLength b.chars⟩) := by
  refine ⟨?_, ?_, ?_, ?_, ?_, rfl, ?_⟩
  · intro line
    exact isBlank_iff
  · intro lines s e blanks h he
    obtain ⟨s', hs', hcloses, hfinish⟩ := Session.exists_feedAll_blank_of_objective h he blanks
    exact ⟨s', hs', hcloses.rank, hcloses.finish.trans hfinish, hfinish⟩
  · intro lines s err h
    exact Session.finish_eq_error_iff (Session.coherent_of_feedAll h)
  · intro first rest blanks
    exact Session.readAll_append_blank first rest blanks
  · intro first e dropped b b' h
    exact Session.exists_feedAll_objective_blank h b b'
  · intro b rest
    exact readAll_blank b rest

end LinProg
