import LinProg.Proofs.Model.Text
import LinProg.Proofs.Session.Problem

set_option autoImplicit false

/-! # Reading statements back from a model

A model gives back the problem that it was assembled from: a row is the expression of its
coefficients that do not compare equal to zero (`Model.expression`), and the marked columns are the
sign restrictions, each once. For expressions without zeros nothing is lost (`objective_assemble`,
`restrictions_assemble`, `mem_restrictedNames_assemble`), because every variable of a statement has
a column and no column has another name. The order and the repetitions of sign restrictions are the
only things that a model does not keep, and they do not bear on the model (`assemble_congr`). -/

namespace LinProg

/-! ## Expressions -/

/-- The terms of an expression hold all of it. -/
theorem Expression.ofTerms_terms (e : Expression) : ofTerms e.terms = e := by
  have hentries : e.terms.map (fun t => (t.name, t.coefficient)) = e.coefficients.toList := by
    rw [terms, List.map_map]
    exact List.map_id _
  apply ext_coeff?
  intro name
  rw [ofTerms, hentries, coeff?, coeff?]
  cases hname : e.coefficients[name]? with
  | none =>
    refine Std.ExtTreeMap.getElem?_ofList_of_contains_eq_false ?_
    rw [Std.ExtTreeMap.map_fst_toList_eq_keys, ← Bool.not_eq_true, List.contains_iff_mem,
      Std.ExtTreeMap.mem_keys, Std.ExtTreeMap.mem_iff_isSome_getElem?, hname]
    exact Bool.false_ne_true
  | some c =>
    exact Std.ExtTreeMap.getElem?_ofList_of_mem Std.ReflCmp.compare_self
      Std.ExtTreeMap.distinct_keys_toList
      (Std.ExtTreeMap.mem_toList_iff_getElem?_eq_some.2 hname)

/-! ## What a model gives back -/

namespace Model

/-- The expression of a row of coefficients: those that do not compare equal to zero, each with the
    variable of its column. -/
def expression (names : List String) (coefficients : List Binary64) : Expression :=
  .ofTerms ((entries names coefficients).map fun entry => ⟨entry.1, entry.2⟩)

def objective (m : Model) : Expression :=
  expression m.names m.costs

def restrictions (m : Model) : List Restriction :=
  m.rows.map fun row => ⟨expression m.names row.coefficients, row.relation, row.bound⟩

/-- The names of the marked columns, whose variables may not be negative. -/
def restrictedNames (m : Model) : List String :=
  (m.columns.filter (·.nonnegative)).map (·.name)

/-- The problem that a model gives back, with one sign restriction for each marked column. -/
def problem (m : Model) : Problem :=
  ⟨m.objective, m.restrictions, m.restrictedNames.map SignRestriction.mk⟩

/-- Whether a column says something: the objective or a row has a coefficient other than zero
    there, or the variable may not be negative. -/
def IsAlive (m : Model) (j : Nat) : Prop :=
  (∃ c, m.costs[j]? = some c ∧ c.isZero = false) ∨
    (∃ row ∈ m.matrix, ∃ c, row[j]? = some c ∧ c.isZero = false) ∨
    m.nonnegative[j]? = some true

/-- Whether a model gives a problem back: its objective, its restrictions, which variables may not
    be negative, and with these the model itself, of which no column is dead. -/
structure GivesBack (m : Model) (p : Problem) : Prop where
  objective : m.objective = p.objective
  restrictions : m.restrictions = p.restrictions
  restrictedNames : ∀ name, name ∈ m.restrictedNames ↔ ⟨name⟩ ∈ p.signRestrictions
  alive : ∀ j < m.columns.length, m.IsAlive j
  assemble : m.problem.assemble = m

/-- The dense row of an expression without zeros is read as the expression. -/
theorem expression_coeff {e : Expression} {names : List String} (h : e.ZeroFree)
    (hsorted : names.Pairwise (· < ·)) (hnames : ∀ name ∈ e.names, name ∈ names) :
    expression names (names.map e.coeff) = e := by
  rw [expression, entries_coeff h hsorted hnames, List.map_map]
  exact (congrArg Expression.ofTerms (List.map_id e.terms)).trans e.ofTerms_terms

end Model

namespace Problem

variable {p q : Problem}

theorem objective_assemble (h : p.ZeroFree) : p.assemble.objective = p.objective := by
  rw [Model.objective, names_assemble, costs_assemble]
  exact Model.expression_coeff h.objective p.pairwise_names fun name hname =>
    mem_names.2 (.inl hname)

theorem restrictions_assemble (h : p.ZeroFree) : p.assemble.restrictions = p.restrictions := by
  rw [Model.restrictions, names_assemble, assemble, List.map_map]
  refine (List.map_congr_left fun r hr => ?_).trans (List.map_id p.restrictions)
  have hnames : ∀ name ∈ r.expression.names, name ∈ p.names := by
    intro name hname
    exact mem_names.2 (.inr (.inl ⟨r, hr, hname⟩))
  rw [Function.comp_apply, Restriction.row,
    Model.expression_coeff (h.restrictions r hr) p.pairwise_names hnames]
  rfl

theorem mem_restrictedNames_assemble {name : String} :
    name ∈ p.assemble.restrictedNames ↔ ⟨name⟩ ∈ p.signRestrictions := by
  rw [Model.restrictedNames, assemble, List.mem_map]
  constructor
  · rintro ⟨column, hcolumn, rfl⟩
    obtain ⟨hmem, hmarked⟩ := List.mem_filter.1 hcolumn
    obtain ⟨name, -, rfl⟩ := List.mem_map.1 hmem
    exact p.restrictsSign_eq_true_iff.1 hmarked
  · intro hs
    have hname : name ∈ p.names := mem_names.2 (.inr (.inr ⟨⟨name⟩, hs, rfl⟩))
    refine ⟨p.column name, List.mem_filter.2 ⟨List.mem_map_of_mem hname, ?_⟩, rfl⟩
    exact p.restrictsSign_eq_true_iff.2 hs

/-! ## Assembling again -/

/-- The order and the repetitions of sign restrictions do not bear on the model. -/
theorem assemble_congr (hobjective : p.objective = q.objective)
    (hrestrictions : p.restrictions = q.restrictions)
    (hsigns : ∀ s, s ∈ p.signRestrictions ↔ s ∈ q.signRestrictions) :
    p.assemble = q.assemble := by
  have hnames : p.names = q.names := by
    refine names_congr fun name => ?_
    rw [mem_names, mem_names, hobjective, hrestrictions]
    simp only [hsigns]
  have hcolumn : p.column = q.column := by
    funext name
    have hrestricts : p.restrictsSign name = q.restrictsSign name := by
      rw [Bool.eq_iff_iff, restrictsSign_eq_true_iff, restrictsSign_eq_true_iff, hsigns]
    rw [column, column, hobjective, hrestricts]
  rw [assemble, assemble, hnames, hcolumn, hrestrictions]

theorem mem_signRestrictions_problem_assemble {s : SignRestriction} :
    s ∈ p.assemble.problem.signRestrictions ↔ s ∈ p.signRestrictions := by
  obtain ⟨name⟩ := s
  rw [Model.problem, List.mem_map]
  constructor
  · rintro ⟨name', hname, heq⟩
    cases heq
    exact mem_restrictedNames_assemble.1 hname
  · intro hs
    exact ⟨name, mem_restrictedNames_assemble.2 hs, rfl⟩

/-- Assembling what a model gives back gives the model. -/
theorem assemble_problem_assemble (h : p.ZeroFree) : p.assemble.problem.assemble = p.assemble :=
  assemble_congr (objective_assemble h) (restrictions_assemble h) fun _ =>
    mem_signRestrictions_problem_assemble

/-! ## Columns -/

/-- Every column has a name that a statement mentions, so that it says something. -/
theorem isAlive_assemble (h : p.ZeroFree) {j : Nat} (hj : j < p.assemble.columns.length) :
    p.assemble.IsAlive j := by
  have hlt : j < p.names.length := by simpa [assemble] using hj
  have hget : p.names[j]? = some p.names[j] := List.getElem?_eq_getElem hlt
  rcases mem_names.1 (List.getElem_mem hlt) with hobjective | ⟨r, hr, hname⟩ | ⟨s, hs, hname⟩
  · refine .inl ⟨p.objective.coeff p.names[j], ?_, ?_⟩
    · rw [costs_assemble, List.getElem?_map, hget, Option.map_some]
    · exact h.objective.isZero_coeff_eq_false_iff.2 hobjective
  · refine .inr (.inl ⟨p.names.map r.expression.coeff, ?_, r.expression.coeff p.names[j], ?_, ?_⟩)
    · rw [matrix_assemble]
      exact List.mem_map_of_mem hr
    · rw [List.getElem?_map, hget, Option.map_some]
    · exact (h.restrictions r hr).isZero_coeff_eq_false_iff.2 hname
  · refine .inr (.inr ?_)
    rw [nonnegative_assemble, List.getElem?_map, hget, Option.map_some, ← hname,
      p.restrictsSign_eq_true_iff.2 hs]

theorem givesBack_assemble (h : p.ZeroFree) : p.assemble.GivesBack p where
  objective := objective_assemble h
  restrictions := restrictions_assemble h
  restrictedNames _ := mem_restrictedNames_assemble
  alive _ hj := isAlive_assemble h hj
  assemble := assemble_problem_assemble h

/-- Two problems without zeros have the same model only if they say the same. -/
theorem assemble_eq_assemble_iff (hp : p.ZeroFree) (hq : q.ZeroFree) :
    p.assemble = q.assemble ↔ p.objective = q.objective ∧ p.restrictions = q.restrictions ∧
      ∀ s, s ∈ p.signRestrictions ↔ s ∈ q.signRestrictions := by
  constructor
  · intro h
    refine ⟨?_, ?_, ?_⟩
    · rw [← objective_assemble hp, h, objective_assemble hq]
    · rw [← restrictions_assemble hp, h, restrictions_assemble hq]
    · intro s
      rw [← mem_signRestrictions_problem_assemble, h, mem_signRestrictions_problem_assemble]
  · rintro ⟨hobjective, hrestrictions, hsigns⟩
    exact assemble_congr hobjective hrestrictions hsigns

/-- **A model gives back the statements that it was assembled from**, as far as their expressions
    hold no zeros, and so it determines them up to the order and the repetitions of the sign
    restrictions. A model that a compilation returns gives back the statements on the lines that
    were taken. -/
theorem model_gives_statements_back :
    (∀ p : Problem, p.ZeroFree → p.assemble.GivesBack p) ∧
    (∀ p q : Problem, p.ZeroFree → q.ZeroFree →
      (p.assemble = q.assemble ↔ p.objective = q.objective ∧ p.restrictions = q.restrictions ∧
        ∀ s, s ∈ p.signRestrictions ↔ s ∈ q.signRestrictions)) ∧
    ∀ (bytes : List UInt8) (m : Model), (compile bytes).result = .ok m →
      ∃ (taken rest : List (List UInt8)) (texts : List String) (s : Session) (p : Problem),
        Text.LinesOf Text.lineFeed Text.carriageReturn bytes (taken ++ rest) ∧
          List.Forall₂ Encodes texts taken ∧ Session.new.feedAll texts = .ok s ∧
          s.problem? = some p ∧ p.ZeroFree ∧ m = p.assemble ∧ m.GivesBack p := by
  refine ⟨?_, ?_, ?_⟩
  · intro p hp
    exact givesBack_assemble hp
  · intro p q hp hq
    exact assemble_eq_assemble_iff hp hq
  · intro bytes m h
    obtain ⟨taken, rest, texts, s, p, hlines, htexts, hfeed, hproblem, hp, rfl⟩ :=
      exists_problem_of_compile h
    exact ⟨taken, rest, texts, s, p, hlines, htexts, hfeed, hproblem, hp, rfl,
      givesBack_assemble hp⟩

end Problem

end LinProg
