import LinProg.Proofs.Session.Step

set_option autoImplicit false

/-! # What every session keeps

The six parts of a session are set apart from each other, but those of a session that lines have led
to agree: `Coherent` says how. Each line that is accepted keeps to it (`Accepts.coherent`), and so
do any number of them (`Coherent.feedAll`). From a coherent session one more line changes little
(`Advances`), and many lines only add to what there is (`Extends`). -/

namespace LinProg

open Text

/-! ## Phases -/

theorem Phase.ne_objective_iff {phase : Phase} : phase ≠ .objective ↔ 0 < phase.rank := by
  cases phase <;> simp [Phase.rank]

theorem Phase.rank_le (phase : Phase) : phase.rank ≤ 3 := by
  cases phase <;> decide

theorem Phase.eq_assembled_iff {phase : Phase} : phase = .assembled ↔ phase.rank = 3 := by
  cases phase <;> simp [Phase.rank]

namespace Session

variable {s s' : Session} {line : String} {messages : List Message} {fed : Nat}

/-! ## The invariant -/

/-- How the parts of a session agree with each other after a number of lines. -/
structure Coherent (s : Session) (fed : Nat) : Prop where
  lineNumber : s.lineNumber = fed
  /-- The objective is missing just as long as it is what comes next. -/
  objective : s.objective? = none ↔ s.phase = .objective
  restrictions : s.phase = .objective → s.restrictions = []
  signRestrictions : s.phase = .objective ∨ s.phase = .restrictions → s.signRestrictions = []
  /-- There is a model in the last phase only. -/
  model : s.model?.isSome = true ↔ s.phase = .assembled
  /-- The model is that of all the statements. -/
  assembled : ∀ m, s.model? = some m →
    ∃ e, s.objective? = some e ∧ m = Problem.assemble ⟨e, s.restrictions, s.signRestrictions⟩

theorem coherent_new : new.Coherent 0 where
  lineNumber := rfl
  objective := by simp [new]
  restrictions := fun _ => rfl
  signRestrictions := fun _ => rfl
  model := by simp [new]
  assembled := by
    rintro m ⟨⟩

theorem Coherent.model_eq_none (h : s.Coherent fed) (hphase : s.phase ≠ .assembled) :
    s.model? = none := by
  rwa [← Option.not_isSome_iff_eq_none, h.model]

theorem Coherent.exists_objective (h : s.Coherent fed) (hphase : s.phase ≠ .objective) :
    ∃ e, s.objective? = some e := by
  rwa [← Option.ne_none_iff_exists', ne_eq, h.objective]

/-- A line that is accepted leaves the parts in agreement. -/
theorem Accepts.coherent (haccepts : s.Accepts line s' messages) (h : s.Coherent fed) :
    s'.Coherent (fed + 1) := by
  have hcount : s.lineNumber + 1 = fed + 1 := by rw [h.lineNumber]
  cases haccepts with
  | objective hphase hparse =>
    have hmodel : s.model? = none := h.model_eq_none (by simp [hphase])
    exact ⟨hcount, by simp, by simp, fun _ => h.signRestrictions (.inl hphase), by simp [hmodel],
      by simp [hmodel]⟩
  | restriction hphase hwritten hparse =>
    have hmodel : s.model? = none := h.model_eq_none (by simp [hphase])
    exact ⟨hcount, h.objective, by simp [hphase], h.signRestrictions, h.model, by simp [hmodel]⟩
  | restrictionsEnd hphase hblank =>
    have hmodel : s.model? = none := h.model_eq_none (by simp [hphase])
    have hobjective : s.objective? ≠ none := by simp [h.objective, hphase]
    exact ⟨hcount, by simp [hobjective], by simp,
      fun _ => h.signRestrictions (.inr hphase), by simp [hmodel], by simp [hmodel]⟩
  | signRestriction hphase hwritten hparse =>
    have hmodel : s.model? = none := h.model_eq_none (by simp [hphase])
    exact ⟨hcount, h.objective, by simp [hphase], by simp [hphase], h.model, by simp [hmodel]⟩
  | signRestrictionsEnd hphase hblank hobjective =>
    exact ⟨hcount, by simp [hobjective], by simp, by simp, by simp,
      fun m hm => ⟨_, hobjective, (Option.some.inj hm).symm⟩⟩
  | ignored hphase =>
    exact ⟨hcount, h.objective, h.restrictions, h.signRestrictions, h.model, h.assembled⟩

theorem Coherent.feed (h : s.Coherent fed) (hfeed : s.feed line = .ok s') :
    s'.Coherent (fed + 1) := by
  obtain ⟨messages, haccepts⟩ := feed_eq_ok_iff.1 hfeed
  exact haccepts.coherent h

theorem Coherent.feedAll {lines : List String} (h : s.Coherent fed)
    (hfeed : s.feedAll lines = .ok s') : s'.Coherent (fed + lines.length) := by
  induction lines generalizing s fed with
  | nil =>
    cases hfeed
    exact h
  | cons line lines ih =>
    obtain ⟨t, ht, hrest⟩ := feedAll_cons_eq_ok_iff.1 hfeed
    rw [List.length_cons, Nat.add_comm lines.length, ← Nat.add_assoc]
    exact ih (h.feed ht) hrest

theorem coherent_of_feedAll {lines : List String} (h : new.feedAll lines = .ok s) :
    s.Coherent lines.length := by
  have := coherent_new.feedAll h
  rwa [Nat.zero_add] at this

/-! ## What one line may change -/

/-- How a session goes on with one line. -/
structure Advances (s s' : Session) : Prop where
  lineNumber : s'.lineNumber = s.lineNumber + 1
  /-- The phase stays or is followed by the next one. -/
  phase : s'.phase = s.phase ∨ s'.phase.rank = s.phase.rank + 1
  objective : ∀ e, s.objective? = some e → s'.objective? = some e
  /-- At most one statement comes to at most one of the lists. -/
  statements :
    (s'.restrictions = s.restrictions ∧ s'.signRestrictions = s.signRestrictions) ∨
      (∃ r, s'.restrictions = s.restrictions ++ [r] ∧ s'.signRestrictions = s.signRestrictions) ∨
      ∃ r, s'.restrictions = s.restrictions ∧ s'.signRestrictions = s.signRestrictions ++ [r]
  model : ∀ m, s.model? = some m → s'.model? = some m

/-- Whatever the parts of a session are, the phase goes forward by one at most. -/
theorem Accepts.phase (h : s.Accepts line s' messages) :
    s'.phase = s.phase ∨ s'.phase.rank = s.phase.rank + 1 := by
  cases h with
  | objective hphase => exact .inr (by rw [hphase]; rfl)
  | restriction => exact .inl rfl
  | restrictionsEnd hphase => exact .inr (by rw [hphase]; rfl)
  | signRestriction => exact .inl rfl
  | signRestrictionsEnd hphase => exact .inr (by rw [hphase]; rfl)
  | ignored => exact .inl rfl

theorem Accepts.advances (haccepts : s.Accepts line s' messages) (h : s.Coherent fed) :
    s.Advances s' := by
  have hphase := haccepts.phase
  cases haccepts with
  | objective hobjective =>
    -- Only here something is replaced, and there was nothing before.
    have hnone : s.objective? = none := h.objective.2 hobjective
    exact ⟨rfl, hphase, by simp [hnone], .inl ⟨rfl, rfl⟩, fun _ hm => hm⟩
  | restriction =>
    exact ⟨rfl, hphase, fun _ he => he, .inr (.inl ⟨_, rfl, rfl⟩), fun _ hm => hm⟩
  | restrictionsEnd => exact ⟨rfl, hphase, fun _ he => he, .inl ⟨rfl, rfl⟩, fun _ hm => hm⟩
  | signRestriction =>
    exact ⟨rfl, hphase, fun _ he => he, .inr (.inr ⟨_, rfl, rfl⟩), fun _ hm => hm⟩
  | signRestrictionsEnd hsigns =>
    have hnone : s.model? = none := h.model_eq_none (by simp [hsigns])
    exact ⟨rfl, hphase, fun _ he => he, .inl ⟨rfl, rfl⟩, by simp [hnone]⟩
  | ignored => exact ⟨rfl, hphase, fun _ he => he, .inl ⟨rfl, rfl⟩, fun _ hm => hm⟩

theorem Coherent.advances (h : s.Coherent fed) (hfeed : s.feed line = .ok s') : s.Advances s' := by
  obtain ⟨messages, haccepts⟩ := feed_eq_ok_iff.1 hfeed
  exact haccepts.advances h

/-! ## What many lines may change -/

theorem Accepts.rank_le (h : s.Accepts line s' messages) : s.phase.rank ≤ s'.phase.rank := by
  rcases h.phase with heq | hnext
  · rw [heq]
  · omega

theorem rank_le_of_feedAll {lines : List String} (h : s.feedAll lines = .ok s') :
    s.phase.rank ≤ s'.phase.rank := by
  induction lines generalizing s with
  | nil =>
    cases h
    exact Nat.le.refl
  | cons line lines ih =>
    obtain ⟨t, ht, hrest⟩ := feedAll_cons_eq_ok_iff.1 h
    obtain ⟨messages, haccepts⟩ := feed_eq_ok_iff.1 ht
    exact Nat.le_trans haccepts.rank_le (ih hrest)

/-- What a session holds stays there, in its place, as long as lines are taken. -/
structure Extends (s s' : Session) : Prop where
  phase : s.phase.rank ≤ s'.phase.rank
  objective : ∀ e, s.objective? = some e → s'.objective? = some e
  restrictions : s.restrictions <+: s'.restrictions
  signRestrictions : s.signRestrictions <+: s'.signRestrictions
  model : ∀ m, s.model? = some m → s'.model? = some m

theorem Advances.extends (h : s.Advances s') : s.Extends s' := by
  have hphase : s.phase.rank ≤ s'.phase.rank := by
    rcases h.phase with heq | hnext
    · rw [heq]
    · omega
  rcases h.statements with ⟨hr, hs⟩ | ⟨r, hr, hs⟩ | ⟨r, hr, hs⟩
  · exact ⟨hphase, h.objective, by simp [hr], by simp [hs], h.model⟩
  · exact ⟨hphase, h.objective, ⟨[r], hr.symm⟩, by simp [hs], h.model⟩
  · exact ⟨hphase, h.objective, by simp [hr], ⟨[r], hs.symm⟩, h.model⟩

theorem Extends.refl (s : Session) : s.Extends s :=
  ⟨Nat.le.refl, fun _ he => he, List.prefix_rfl, List.prefix_rfl, fun _ hm => hm⟩

theorem Extends.trans {s t u : Session} (h : s.Extends t) (h' : t.Extends u) : s.Extends u :=
  ⟨Nat.le_trans h.phase h'.phase, fun e he => h'.objective e (h.objective e he),
    h.restrictions.trans h'.restrictions, h.signRestrictions.trans h'.signRestrictions,
    fun m hm => h'.model m (h.model m hm)⟩

theorem Coherent.extends {lines : List String} (h : s.Coherent fed)
    (hfeed : s.feedAll lines = .ok s') : s.Extends s' := by
  induction lines generalizing s fed with
  | nil =>
    cases hfeed
    exact .refl _
  | cons line lines ih =>
    obtain ⟨t, ht, hrest⟩ := feedAll_cons_eq_ok_iff.1 hfeed
    exact (h.advances ht).extends.trans (ih (h.feed ht) hrest)

/-- **What a session is on every way.** The parts of a session that lines have led to agree with
    each other. From a session whose parts do, a line that is accepted leads to another one; it
    changes the phase to the next one or not at all and adds at most one statement, and nothing that
    the session holds is changed by any number of lines. A session in its last phase accepts every
    line and only counts it, whatever its parts are. -/
theorem session_invariant :
    (∀ (lines : List String) (s : Session), new.feedAll lines = .ok s →
        s.Coherent lines.length) ∧
      (∀ (s : Session) (fed : Nat) (line : String) (s' : Session), s.Coherent fed →
        s.feed line = .ok s' → s'.Coherent (fed + 1) ∧ s.Advances s') ∧
      (∀ (s : Session) (line : String), s.phase = .assembled →
        s.feed line = .ok { s with lineNumber := s.lineNumber + 1 }) ∧
      ∀ (s : Session) (fed : Nat) (lines : List String) (s' : Session), s.Coherent fed →
        s.feedAll lines = .ok s' → s.Extends s' := by
  refine ⟨?_, ?_, ?_, ?_⟩
  · intro lines s h
    exact coherent_of_feedAll h
  · intro s fed line s' h hfeed
    exact ⟨h.feed hfeed, h.advances hfeed⟩
  · intro s line h
    exact feed_of_assembled h line
  · intro s fed lines s' h hfeed
    exact h.extends hfeed

end Session

end LinProg
