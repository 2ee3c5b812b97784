import LinProg.Proofs.Model.Order
import LinProg.Proofs.Model.Specification
import LinProg.Proofs.Session.Stream

set_option autoImplicit false

/-! # Problems and the order of their lines

The order of the restriction lines of a problem is that of the rows of its model, and nothing else
depends on it. Of the sign restriction lines only matters which ones there are. So lines that differ
from those of a problem in no more than this (`Reorders`) compile to the same model with its rows in
that order, and not to an error. -/

namespace LinProg

open Text

/-! ## Lines of a section -/

section Section

variable {α : Type} {parse : String → Except ParseError α} {lines : List String} {as : List α}

/-- Lines are read as a list of statements if each is read as its own. -/
theorem forall₂_iff_map_eq :
    List.Forall₂ (fun line a => parse line = .ok a) lines as ↔
      lines.map parse = as.map Except.ok := by
  rw [← List.forall₂_eq_eq_eq, List.forall₂_map_left_iff, List.forall₂_map_right_iff]

/-- In another order the lines are read as the statements in that order. -/
theorem forall₂_rearrange (h : List.Forall₂ (fun line a => parse line = .ok a) lines as)
    (order : List ℕ) :
    List.Forall₂ (fun line a => parse line = .ok a) (rearrange order lines)
      (rearrange order as) := by
  rw [forall₂_iff_map_eq] at h ⊢
  rw [← rearrange_map, ← rearrange_map, h]

/-- What is read of lines is what is read of any of them. -/
theorem mem_iff_of_forall₂ (h : List.Forall₂ (fun line a => parse line = .ok a) lines as) {a : α} :
    a ∈ as ↔ ∃ line ∈ lines, parse line = .ok a := by
  have hmem : .ok a ∈ lines.map parse ↔ a ∈ as := by
    rw [forall₂_iff_map_eq.1 h, List.mem_map]
    simp
  rw [← hmem, List.mem_map]

theorem exists_forall₂ (h : ∀ line ∈ lines, ∃ a, parse line = .ok a) :
    ∃ as, List.Forall₂ (fun line a => parse line = .ok a) lines as := by
  induction lines with
  | nil => exact ⟨[], .nil⟩
  | cons line lines ih =>
    obtain ⟨a, ha⟩ := h line List.mem_cons_self
    obtain ⟨as, has⟩ := ih fun l hl => h l (List.mem_cons_of_mem line hl)
    exact ⟨a :: as, .cons ha has⟩

/-- The same lines, in any order and number, are read as the same statements. -/
theorem exists_forall₂_of_same_lines
    (h : List.Forall₂ (fun line a => parse line = .ok a) lines as) {lines' : List String}
    (hsame : ∀ line, line ∈ lines' ↔ line ∈ lines) :
    ∃ as', List.Forall₂ (fun line a => parse line = .ok a) lines' as' ∧ ∀ a, a ∈ as' ↔ a ∈ as := by
  have hread : ∀ line ∈ lines', ∃ a, parse line = .ok a := by
    intro line hline
    have hparse : parse line ∈ as.map Except.ok := by
      rw [← forall₂_iff_map_eq.1 h]
      exact List.mem_map_of_mem ((hsame line).1 hline)
    obtain ⟨a, -, ha⟩ := List.mem_map.1 hparse
    exact ⟨a, ha.symm⟩
  obtain ⟨as', has'⟩ := exists_forall₂ hread
  refine ⟨as', has', fun a => ?_⟩
  rw [mem_iff_of_forall₂ has', mem_iff_of_forall₂ h]
  simp only [hsame]

end Section

/-! ## Whole problems -/

/-- Whether the lines after an objective are others with the restriction lines in a given order, and
    with the same sign restriction lines in any order and number. -/
structure Reorders (order : List ℕ) (rest rest' : List String) : Prop where
  isOrder : IsOrder order (sectionLines rest).length
  restrictions : sectionLines rest' = rearrange order (sectionLines rest)
  signRestrictions : ∀ line,
    line ∈ sectionLines (afterSection rest') ↔ line ∈ sectionLines (afterSection rest)

/-- Lines in another order are read as the model with its rows in that order. -/
theorem Reorders.exists_readAll {order : List ℕ} {first : String} {rest rest' : List String}
    {m : Model} (h : Reorders order rest rest')
    (hread : Session.new.readAll (first :: rest) = .ok m) :
    ∃ m', Session.new.readAll (first :: rest') = .ok m' ∧ m.IsRearranged order m' := by
  rw [Session.readAll_eq_ok_iff] at hread
  cases hread with
  | @accepted _ _ e dropped rs ss hobjective hrestrictions hsigns =>
    obtain ⟨ss', hsigns', hsame⟩ := exists_forall₂_of_same_lines hsigns h.signRestrictions
    have horder : IsOrder order rs.length := hrestrictions.length_eq ▸ h.isOrder
    refine ⟨Problem.assemble ⟨e, rearrange order rs, ss'⟩, ?_,
      Problem.isRearranged_assemble e horder hsame⟩
    rw [Session.readAll_eq_ok_iff]
    exact .accepted hobjective (h.restrictions ▸ forall₂_rearrange hrestrictions order) hsigns'

/-- **Another order of the statements is another order of the rows.** A model has a row, a bound and
    a relation for each restriction and the names that the statements mention. A problem with its
    restrictions in another order, and with the same sign restrictions in any order and number, has
    the same variables, costs and marks, and the rows of its matrix, the bounds and the relations
    are in that order. A restriction that is added at the end changes no row before it: the
    variables keep their order, a coefficient that is looked up by the name of its variable is the
    same, and it is `+0` for a variable that came along. Lines in another order, be it given as
    lines or as a text, compile to the model with its rows in that order. -/
theorem statement_order_is_row_order :
    (∀ p : Problem, p.assemble.matrix.length = p.restrictions.length ∧
      p.assemble.bounds.length = p.restrictions.length ∧
      p.assemble.relations.length = p.restrictions.length ∧
      ∀ name, name ∈ p.assemble.names ↔ p.Mentions name) ∧
    (∀ (e : Expression) (rs : List Restriction) (ss ss' : List SignRestriction) (order : List ℕ),
      IsOrder order rs.length → (∀ s, s ∈ ss' ↔ s ∈ ss) →
        Model.IsRearranged order (Problem.assemble ⟨e, rs, ss⟩)
          (Problem.assemble ⟨e, rearrange order rs, ss'⟩)) ∧
    (∀ (e : Expression) (rs : List Restriction) (r : Restriction) (ss : List SignRestriction),
      Model.Enlarges (Problem.assemble ⟨e, rs, ss⟩) (Problem.assemble ⟨e, rs ++ [r], ss⟩)) ∧
    (∀ (order : List ℕ) (first : String) (rest rest' : List String) (m : Model),
      Reorders order rest rest' → Session.new.readAll (first :: rest) = .ok m →
        ∃ m', Session.new.readAll (first :: rest') = .ok m' ∧ m.IsRearranged order m') ∧
    ∀ (order : List ℕ) (text text' : String) (first : List Char) (rest rest' : List (List Char))
      (m : Model), LinesOf '\n' '\r' text.toList (first :: rest) →
        LinesOf '\n' '\r' text'.toList (first :: rest') →
          Reorders order (rest.map String.ofList) (rest'.map String.ofList) →
            (compileText text).result = .ok m →
              ∃ m', (compileText text').result = .ok m' ∧ m.IsRearranged order m' := by
  refine ⟨?_, ?_, ?_, ?_, ?_⟩
  · intro p
    have hlays := p.laysOut_assemble
    exact ⟨hlays.length_matrix, hlays.length_bounds, hlays.length_relations, hlays.mem_names⟩
  · intro e rs ss ss' order horder hsigns
    exact Problem.isRearranged_assemble e horder hsigns
  · intro e rs r ss
    exact Problem.enlarges_assemble e rs [r] ss
  · intro order first rest rest' m h hread
    exact h.exists_readAll hread
  · intro order text text' first rest rest' m hlines hlines' h hresult
    rw [result_compileText hlines, List.map_cons] at hresult
    rw [result_compileText hlines', List.map_cons]
    exact h.exists_readAll hresult

end LinProg
