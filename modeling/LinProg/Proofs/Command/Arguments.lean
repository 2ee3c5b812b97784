import LinProg.Command.Arguments

set_option autoImplicit false

/-! # Groups of arguments

Arguments can be given in groups, each of which is read for itself. What a group asks for does not
depend on the groups around it, as long as no two of them give what may be given once
(`Options.Compatible`): together they ask for the options of all groups (`Options.merge`,
`readArguments_append`). A group can therefore stand anywhere between the others
(`readArguments_insert`).

That other options may be there before an argument is taken is shown for each way to take one
(`Independent`). A successful reading is a derivation that takes one argument after the other
(`Options.Reads`), so that the same follows for a whole reading by induction
(`Options.Reads.merge`). -/

namespace LinProg.Command

/-! ## Options together -/

namespace Options

def merge (o extra : Options) : Options where
  input := o.input <|> extra.input
  output := o.output <|> extra.output
  noPrompt := o.noPrompt || extra.noPrompt
  verbosity := o.verbosity + extra.verbosity

/-- No two groups of arguments give what may be given once. -/
structure Compatible (o extra : Options) : Prop where
  input : o.input = none ∨ extra.input = none
  output : o.output = none ∨ extra.output = none
  noPrompt : o.noPrompt = false ∨ extra.noPrompt = false

theorem Compatible.symm {o extra : Options} (h : o.Compatible extra) : extra.Compatible o :=
  ⟨h.input.symm, h.output.symm, h.noPrompt.symm⟩

theorem empty_merge (o : Options) : ({} : Options).merge o = o := by
  simp [merge]

/-- Which of two settings comes first does not matter if there is at most one of them. -/
theorem orElse_comm_of_none {α : Type} {x y : Option α} (h : x = none ∨ y = none) :
    (x <|> y) = (y <|> x) := by
  obtain rfl | rfl := h <;> simp

theorem merge_comm {o extra : Options} (h : o.Compatible extra) :
    o.merge extra = extra.merge o := by
  rw [merge, merge, orElse_comm_of_none h.input, orElse_comm_of_none h.output, Bool.or_comm,
    Nat.add_comm]

theorem merge_verbosity (o extra : Options) :
    { o with verbosity := o.verbosity + 1 : Options }.merge extra =
      { o.merge extra with verbosity := (o.merge extra).verbosity + 1 } := by
  simp only [merge, Nat.add_right_comm]

theorem set_merge {o next extra : Options} {setting : Setting} {value : String}
    (h : o.set setting value = .ok next) (hnext : next.Compatible extra) :
    o.Compatible extra ∧ (o.merge extra).set setting value = .ok (next.merge extra) := by
  unfold set at h ⊢
  split at h
  · cases h
  · next hempty =>
    rw [if_neg hempty]
    cases setting with
    | input =>
      dsimp only at h ⊢
      split at h
      · cases h
      · next hinput =>
        cases h
        have hinput : o.input = none := by simpa using hinput
        have hextra : extra.input = none := by simpa using hnext.input
        exact ⟨⟨.inl hinput, hnext.output, hnext.noPrompt⟩, by simp [merge, hinput, hextra]⟩
    | output =>
      dsimp only at h ⊢
      split at h
      · cases h
      · next houtput =>
        cases h
        have houtput : o.output = none := by simpa using houtput
        have hextra : extra.output = none := by simpa using hnext.output
        exact ⟨⟨hnext.input, .inl houtput, hnext.noPrompt⟩, by simp [merge, houtput, hextra]⟩

end Options

/-! ## Single arguments -/

/-- What taking an argument with some options comes to, next to taking it with further ones as well:
    the reading goes on in the same way if there is room for these, or it ends for information. -/
def Progress.Allows (o extra : Options) (r : Except UsageError Progress) : Progress → Prop
  | .more next => next.Compatible extra →
    o.Compatible extra ∧ r = .ok (.more (next.merge extra))
  | .value next setting => next.Compatible extra →
    o.Compatible extra ∧ r = .ok (.value (next.merge extra) setting)
  | .done request => request = .version ∨ request = .help

theorem Progress.Allows.imp {o o' extra : Options} {r : Except UsageError Progress} {p : Progress}
    (h : p.Allows o extra r) (ho : o.Compatible extra → o'.Compatible extra) :
    p.Allows o' extra r := by
  cases p with
  | more next => exact fun hnext => ⟨ho (h hnext).1, (h hnext).2⟩
  | value next setting => exact fun hnext => ⟨ho (h hnext).1, (h hnext).2⟩
  | done request => exact h

/-- A way to take an argument does the same when there are other options already. -/
def Independent (take : Options → Except UsageError Progress) : Prop :=
  ∀ (o extra : Options) (p : Progress), take o = .ok p → p.Allows o extra (take (o.merge extra))

theorem independent_set (setting : Setting) (value : String) :
    Independent fun o => (o.set setting value).map .more := by
  intro o extra p h
  dsimp only at h ⊢
  cases hset : o.set setting value with
  | error e =>
    rw [hset] at h
    cases h
  | ok next =>
    rw [hset] at h
    cases h
    intro hnext
    obtain ⟨hextra, hmerge⟩ := Options.set_merge hset hnext
    exact ⟨hextra, by rw [hmerge]; rfl⟩

theorem independent_switch (name : String) : Independent (·.switch name) := by
  intro o extra p h
  dsimp only at h ⊢
  unfold Options.switch at h ⊢
  split at h
  · next hname =>
    rw [if_pos hname]
    split at h
    · cases h
    · next hprompt =>
      cases h
      intro hnext
      have hprompt : o.noPrompt = false := by simpa using hprompt
      have hextra : extra.noPrompt = false := by simpa using hnext.noPrompt
      exact ⟨⟨hnext.input, hnext.output, .inl hprompt⟩, by simp [Options.merge, hprompt, hextra]⟩
  · next hname =>
    rw [if_neg hname]
    split at h
    · next hverbose =>
      cases h
      intro hnext
      rw [if_pos hverbose, Options.merge_verbosity]
      exact ⟨⟨hnext.input, hnext.output, hnext.noPrompt⟩, rfl⟩
    · split at h
      · cases h
        exact .inl rfl
      · split at h
        · cases h
          exact .inr rfl
        · cases h

theorem independent_takeSetting (setting : Setting) (rest : List Char) :
    Independent (·.takeSetting setting rest) := by
  intro o extra p h
  dsimp only at h ⊢
  unfold Options.takeSetting at h ⊢
  split at h
  · next hempty =>
    cases h
    exact fun hnext => ⟨hnext, if_pos hempty⟩
  · next hempty =>
    rw [if_neg hempty]
    exact independent_set setting _ o extra p h

theorem independent_takeShort (letters : List Char) : Independent (·.takeShort letters) := by
  intro o extra p h
  dsimp only at h ⊢
  fun_induction Options.takeShort o letters with
  | case1 o =>
    cases h
    exact fun hnext => ⟨hnext, rfl⟩
  | case2 o rest ih =>
    have hmore := ih h
    rw [Options.merge_verbosity] at hmore
    exact hmore.imp fun hextra => ⟨hextra.input, hextra.output, hextra.noPrompt⟩
  | case3 =>
    cases h
    exact .inl rfl
  | case4 =>
    cases h
    exact .inr rfl
  | case5 o rest => exact independent_takeSetting .input rest o extra p h
  | case6 o rest => exact independent_takeSetting .output rest o extra p h
  | case7 => cases h

theorem independent_takeLong (argument : List Char) : Independent (·.takeLong argument) := by
  intro o extra p h
  dsimp only at h ⊢
  unfold Options.takeLong at h ⊢
  split at h
  · next name value _ =>
    split at h
    · next setting _ => exact independent_set setting value o extra p h
    · split at h <;> cases h
  · next name _ =>
    split at h
    · cases h
      exact fun hnext => ⟨hnext, rfl⟩
    · exact independent_switch name o extra p h

theorem independent_take (argument : String) : Independent (·.take argument) := by
  intro o extra p h
  dsimp only at h ⊢
  unfold Options.take at h ⊢
  split at h
  · exact independent_takeLong _ o extra p h
  · exact independent_takeShort _ o extra p h
  · cases h

/-! ## Readings -/

/-- Arguments are read from left to right, which leads from options to options. -/
inductive Options.Reads : Options → List String → Options → Prop
  | nil {o : Options} : Reads o [] o
  | dashes {o : Options} : Reads o ["--"] o
  | more {o next last : Options} {argument : String} {rest : List String}
      (htake : o.take argument = .ok (.more next)) (hrest : next.Reads rest last) :
      Reads o (argument :: rest) last
  | value {o before next last : Options} {setting : Setting} {argument value : String}
      {rest : List String} (htake : o.take argument = .ok (.value before setting))
      (hvalue : isValue value = true) (hset : before.set setting value = .ok next)
      (hrest : next.Reads rest last) : Reads o (argument :: value :: rest) last

section Steps

variable {o before next : Options} {setting : Setting} {argument value : String}
  (rest : List String)

theorem ne_dashes_of_take {p : Progress} (h : o.take argument = .ok p) : argument ≠ "--" := by
  rintro rfl
  cases h

theorem read_cons_of_more (htake : o.take argument = .ok (.more next)) :
    o.read (argument :: rest) = next.read rest := by
  rw [Options.read, htake]
  exact fun hdashes _ => ne_dashes_of_take htake hdashes

theorem read_cons_of_value (htake : o.take argument = .ok (.value before setting))
    (hvalue : isValue value = true) (hset : before.set setting value = .ok next) :
    o.read (argument :: value :: rest) = next.read rest := by
  rw [Options.read, htake]
  · simp only [hvalue, hset, if_true]
  · exact fun hdashes _ => ne_dashes_of_take htake hdashes

end Steps

theorem read_eq_ok_iff {o last : Options} {arguments : List String} :
    o.read arguments = .ok (.compile last) ↔ o.Reads arguments last := by
  constructor
  · intro h
    fun_induction Options.read o arguments with
    | case1 o =>
      cases h
      exact .nil
    | case2 o =>
      cases h
      exact .dashes
    | case4 o argument rest _ request htake =>
      cases h
      obtain hrequest | hrequest := independent_take argument o {} _ htake <;> cases hrequest
    | case5 o argument rest _ next htake ih => exact .more htake (ih h)
    | case8 o argument before setting htake value rest hvalue next hset _ ih =>
      exact .value htake hvalue hset (ih h)
    | case3 | case6 | case7 | case9 => cases h
  · intro h
    induction h with
    | nil => rfl
    | dashes => rfl
    | more htake _ ih => exact (read_cons_of_more _ htake).trans ih
    | value htake hvalue hset _ ih => exact (read_cons_of_value _ htake hvalue hset).trans ih

/-- Arguments that are read with success are read in the same way whatever comes after them. -/
theorem Options.Reads.read_append {o last : Options} {arguments : List String}
    (h : o.Reads arguments last) (hdashes : "--" ∉ arguments) (more : List String) :
    o.read (arguments ++ more) = last.read more := by
  induction h with
  | nil => rfl
  | dashes => simp at hdashes
  | more htake _ ih =>
    exact (read_cons_of_more _ htake).trans (ih (List.not_mem_of_not_mem_cons hdashes))
  | value htake hvalue hset _ ih =>
    have hrest := List.not_mem_of_not_mem_cons (List.not_mem_of_not_mem_cons hdashes)
    exact (read_cons_of_value _ htake hvalue hset).trans (ih hrest)

/-- Other options that are there before the arguments are read stay there. -/
theorem Options.Reads.merge {o last extra : Options} {arguments : List String}
    (h : o.Reads arguments last) (hlast : last.Compatible extra) :
    o.Compatible extra ∧ (o.merge extra).Reads arguments (last.merge extra) := by
  -- From the last step backwards: what is compatible after a step was so before it.
  induction h with
  | nil => exact ⟨hlast, .nil⟩
  | dashes => exact ⟨hlast, .dashes⟩
  | more htake _ ih =>
    obtain ⟨hnext, hrest⟩ := ih hlast
    obtain ⟨hextra, htake⟩ := independent_take _ _ extra _ htake hnext
    exact ⟨hextra, .more htake hrest⟩
  | value htake hvalue hset _ ih =>
    obtain ⟨hnext, hrest⟩ := ih hlast
    obtain ⟨hbefore, hset⟩ := Options.set_merge hset hnext
    obtain ⟨hextra, htake⟩ := independent_take _ _ extra _ htake hbefore
    exact ⟨hextra, .value htake hvalue hset hrest⟩

/-! ## Groups -/

section Groups

variable {before more after : List String} {o o' last : Options}

/-- Two groups together ask for the options of both. -/
theorem readArguments_append (hbefore : readArguments before = .ok (.compile o))
    (hdashes : "--" ∉ before) (hmore : readArguments more = .ok (.compile o'))
    (h : o.Compatible o') : readArguments (before ++ more) = .ok (.compile (o.merge o')) := by
  have hreads := ((read_eq_ok_iff.1 hmore).merge h.symm).2
  rw [Options.empty_merge, ← Options.merge_comm h] at hreads
  exact ((read_eq_ok_iff.1 hbefore).read_append hdashes more).trans (read_eq_ok_iff.2 hreads)

/-- A further group between two others adds its options. -/
theorem readArguments_insert (hbefore : readArguments before = .ok (.compile o))
    (hdashes : "--" ∉ before) (hmore : readArguments more = .ok (.compile o'))
    (hdashes' : "--" ∉ more) (hread : readArguments (before ++ after) = .ok (.compile last))
    (h : last.Compatible o') :
    readArguments (before ++ more ++ after) = .ok (.compile (last.merge o')) := by
  have hafter : o.Reads after last := by
    rw [← read_eq_ok_iff, ← (read_eq_ok_iff.1 hbefore).read_append hdashes]
    exact hread
  obtain ⟨hcompatible, hafter⟩ := hafter.merge h
  have hreads := read_eq_ok_iff.1 (readArguments_append hbefore hdashes hmore hcompatible)
  refine (hreads.read_append ?_ after).trans (read_eq_ok_iff.2 hafter)
  exact fun hmem => (List.mem_append.1 hmem).elim hdashes hdashes'

end Groups

end LinProg.Command
