import Mathlib.Data.List.Sort
import Mathlib.Data.String.Basic
import LinProg.Model.Text
import LinProg.Proofs.Expression.Sum
import LinProg.Proofs.Model.Layout
import LinProg.Proofs.Statement.ZeroFree
import LinProg.Proofs.Text.ByteOrder

set_option autoImplicit false

/-! # The text of an assembled model

A model shows its dense rows, leaving out zeros; a statement shows the terms of its sparse
expression. For expressions without zeros the two are the same text: among increasing names the
columns of a row that are not zero are those of the expression, in its order (`entries_coeff`), and
on coefficients other than zero the two tests for the sign agree (`entryText_eq`). -/

namespace LinProg

/-! ## Rows -/

namespace Model

/-- What is shown for a coefficient other than zero is its term, followed by a space. -/
theorem entryText_eq {t : Term} (h : t.coefficient.isZero = false) :
    entryText t.name t.coefficient = t.text ++ " " := by
  rw [entryText, Term.text, Binary64.isNonnegative, h, Bool.or_false]

/-- The columns of an expression that are not left out are its terms. -/
theorem entries_coeff {e : Expression} {names : List String} (h : e.ZeroFree)
    (hsorted : names.Pairwise (· < ·)) (hnames : ∀ name ∈ e.names, name ∈ names) :
    entries names (names.map e.coeff) = e.terms.map fun t => (t.name, t.coefficient) := by
  have hshown : names.filter (fun name => !(e.coeff name).isZero) = e.names := by
    refine List.Pairwise.eq_of_mem_iff (hsorted.filter _) e.pairwise_names ?_
    intro name
    rw [List.mem_filter, Bool.not_eq_true', h.isZero_coeff_eq_false_iff]
    exact ⟨And.right, fun hname => ⟨hnames name hname, hname⟩⟩
  rw [entries, ← List.map_prod_left_eq_zip, List.filter_map]
  refine (congrArg _ hshown).trans ?_
  rw [← Expression.map_name_terms, List.map_map]
  apply List.map_congr_left
  intro t ht
  rw [Function.comp_apply, Expression.coeff_of_mem_terms ht]

/-- A space after each of some texts, or one between them and one at the end. -/
theorem join_map_space {texts : List String} (h : texts ≠ []) :
    String.join (texts.map (· ++ " ")) = " ".intercalate texts ++ " " := by
  induction texts with
  | nil => exact absurd rfl h
  | cons text texts ih =>
    rw [List.map_cons, String.join_cons]
    cases texts with
    | nil => simp
    | cons next texts =>
      rw [ih (by simp), String.intercalate_cons_cons]
      simp only [String.append_assoc]

/-- A row without the columns left out is the expression, followed by a space. -/
theorem rowText_coeff {e : Expression} {names : List String} (h : e.ZeroFree)
    (hsorted : names.Pairwise (· < ·)) (hnames : ∀ name ∈ e.names, name ∈ names) :
    rowText names (names.map e.coeff) = e.text ++ " " := by
  rw [rowText, entries_coeff h hsorted hnames, List.map_map, Expression.text, List.isEmpty_map]
  by_cases hempty : e.terms = []
  · rw [hempty]
    rfl
  · have hterms : e.terms.map ((fun entry => entryText entry.1 entry.2) ∘
        fun t => (t.name, t.coefficient)) = (e.terms.map Term.text).map (· ++ " ") := by
      rw [List.map_map]
      apply List.map_congr_left
      intro t ht
      exact entryText_eq (h t.name t.coefficient (Expression.mem_terms.1 ht))
    have hshown : ¬ e.terms.isEmpty = true := by
      rwa [List.isEmpty_iff]
    rw [if_neg hshown, if_neg hshown, hterms, join_map_space (by simpa using hempty)]

end Model

/-! ## Models -/

namespace Problem

variable {p : Problem}

/-- What is shown for a variable: that it may not be negative, or that it is free. -/
def signText (p : Problem) (name : String) : String :=
  if ⟨name⟩ ∈ p.signRestrictions then SignRestriction.text ⟨name⟩ else name ++ " free"

theorem columnLine_column (p : Problem) (name : String) :
    Model.columnLine (p.column name) = p.signText name ++ "\n" := by
  rw [Model.columnLine, column, signText]
  by_cases h : ⟨name⟩ ∈ p.signRestrictions
  · rw [if_pos h, if_pos (p.restrictsSign_eq_true_iff.2 h), SignRestriction.text]
    simp only [String.append_assoc]
    rfl
  · rw [if_neg h, if_neg (mt p.restrictsSign_eq_true_iff.1 h)]
    simp only [String.append_assoc]
    rfl

theorem rowLine_row {r : Restriction} (hr : r ∈ p.restrictions) (h : r.expression.ZeroFree) :
    Model.rowLine p.names (r.row p.names) = r.text ++ "\n" := by
  have hnames : ∀ name ∈ r.expression.names, name ∈ p.names := by
    intro name hname
    exact mem_names.2 (.inr (.inl ⟨r, hr, hname⟩))
  rw [Model.rowLine, Restriction.row, Model.rowText_coeff h p.pairwise_names hnames,
    Restriction.text]

theorem rowText_costs (h : p.objective.ZeroFree) :
    Model.rowText p.assemble.names p.assemble.costs = p.objective.text ++ " " := by
  rw [names_assemble, costs_assemble]
  exact Model.rowText_coeff h p.pairwise_names fun name hname => mem_names.2 (.inl hname)

/-- The text of the model of statements whose expressions hold no zeros. -/
theorem text_assemble_eq (hobjective : p.objective.ZeroFree)
    (hrestrictions : ∀ r ∈ p.restrictions, r.expression.ZeroFree) :
    p.assemble.text =
      "minimize\n" ++ p.objective.text ++ " \n\nsubject to\n" ++
        String.join (p.restrictions.map fun r => r.text ++ "\n") ++ "\nwith the bounds\n" ++
        String.join (p.assemble.names.map fun name => p.signText name ++ "\n") := by
  have hrows : p.assemble.rows.map (Model.rowLine p.assemble.names) =
      p.restrictions.map fun r => r.text ++ "\n" := by
    rw [names_assemble, assemble, List.map_map]
    apply List.map_congr_left
    intro r hr
    exact rowLine_row hr (hrestrictions r hr)
  have hcolumns : p.assemble.columns.map Model.columnLine =
      p.assemble.names.map fun name => p.signText name ++ "\n" := by
    rw [names_assemble, assemble, List.map_map]
    apply List.map_congr_left
    intro name _
    exact p.columnLine_column name
  rw [Model.text, rowText_costs hobjective, hrows, hcolumns]
  simp only [String.append_assoc]
  rfl

/-- **The text of an assembled model is made of the texts of the statements.** Their expressions
    may not hold zeros, and none that is read does. The variables are in the order of their bytes,
    and they are those of all the statements. -/
theorem text_assemble :
    (∀ p : Problem, p.objective.ZeroFree → (∀ r ∈ p.restrictions, r.expression.ZeroFree) →
      p.assemble.text =
        "minimize\n" ++ p.objective.text ++ " \n\nsubject to\n" ++
          String.join (p.restrictions.map fun r => r.text ++ "\n") ++ "\nwith the bounds\n" ++
          String.join (p.assemble.names.map fun name => p.signText name ++ "\n")) ∧
    (∀ p : Problem,
      p.assemble.names.Pairwise (fun a b => Text.encode a.toList < Text.encode b.toList) ∧
      ∀ name, name ∈ p.assemble.names ↔
        name ∈ p.objective.names ∨ (∃ r ∈ p.restrictions, name ∈ r.expression.names) ∨
          ∃ s ∈ p.signRestrictions, s.name = name) ∧
    (∀ (line : String) (e : Expression) (dropped : List Char),
      parseObjective line = .ok (e, dropped) → e.ZeroFree) ∧
    ∀ (line : String) (r : Restriction), parseRestriction line = .ok r →
      r.expression.ZeroFree := by
  refine ⟨?_, ?_, ?_, ?_⟩
  · intro p hobjective hrestrictions
    exact text_assemble_eq hobjective hrestrictions
  · intro p
    rw [names_assemble]
    exact ⟨p.pairwise_names.imp Text.encode_toList_lt, fun name => mem_names⟩
  · intro line e dropped h
    exact zeroFree_of_parseObjective h
  · intro line r h
    exact zeroFree_of_parseRestriction h

end Problem

end LinProg
