import LinProg.Proofs.Binary64.Product
import LinProg.Proofs.Expression.Position
import LinProg.Proofs.Expression.Sum

set_option autoImplicit false

/-! # The total of a variable

Terms are added up all at once, but a variable takes part in that with its own terms alone: what an
expression ends up with for it is the running total of the coefficients of those terms, as if no
others were there (`coeff?_sum`). So it does not matter how the terms of different variables are
mixed (`Reordered`), while the order of the terms of one variable does, because rounded sums depend
on it. -/

namespace LinProg

open Text Grammar

/-! ## Running totals -/

/-- A running total with one more summand, set back to `+0` when it compares equal to zero. -/
def addOrReset (total summand : Binary64) : Binary64 :=
  if (total + summand).isZero then 0 else total + summand

/-- The total of some summands, from the first to the last and from `+0` on. -/
def runningTotal (summands : List Binary64) : Binary64 :=
  summands.foldl addOrReset 0

/-- A total as a coefficient, which is absent when it compares equal to zero. -/
def present? (total : Binary64) : Option Binary64 :=
  if total.isZero then none else some total

theorem present?_isSome {total : Binary64} :
    (present? total).isSome = true ↔ total.isZero = false := by
  unfold present?
  split <;> simp_all

/-- The only total that compares equal to zero is `+0`. -/
theorem addOrReset_eq_zero {total summand : Binary64}
    (h : (addOrReset total summand).isZero = true) : addOrReset total summand = 0 := by
  unfold addOrReset at *
  split at h
  · next hz => rw [if_pos hz]
  · next hz => exact absurd h hz

/-- A summand does to a coefficient what it does to the running total. -/
theorem addTo_present? {total : Binary64} (h : total.isZero = true → total = 0)
    (summand : Binary64) :
    Expression.addTo (present? total) summand = present? (addOrReset total summand) := by
  have htotal : (present? total).getD 0 = total := by
    unfold present?
    split
    · next hz => exact (h hz).symm
    · rfl
  rw [Expression.addTo, htotal, addOrReset]
  split
  · rfl
  · next hz => rw [present?, if_neg hz]

theorem foldl_addTo (summands : List Binary64) {total : Binary64}
    (h : total.isZero = true → total = 0) :
    summands.foldl Expression.addTo (present? total) =
      present? (summands.foldl addOrReset total) := by
  induction summands generalizing total with
  | nil => rfl
  | cons summand summands ih =>
    rw [List.foldl_cons, List.foldl_cons, addTo_present? h, ih addOrReset_eq_zero]

/-! ## The terms of a variable -/

def termsOf (name : String) (terms : List Term) : List Term :=
  terms.filter fun t => t.name = name

/-- The coefficients that a variable has in its terms, in order. -/
def coefficientsOf (name : String) (terms : List Term) : List Binary64 :=
  (termsOf name terms).map (·.coefficient)

section TermsOf

variable {name : String} {t : Term} (terms more : List Term)

theorem termsOf_cons_self (t : Term) : termsOf t.name (t :: terms) = t :: termsOf t.name terms := by
  simp [termsOf]

theorem termsOf_cons_of_ne (h : t.name ≠ name) :
    termsOf name (t :: terms) = termsOf name terms := by
  simp [termsOf, h]

theorem termsOf_append : termsOf name (terms ++ more) = termsOf name terms ++ termsOf name more :=
  List.filter_append ..

end TermsOf

theorem termsOf_eq_nil_iff {name : String} {terms : List Term} :
    termsOf name terms = [] ↔ ∀ t ∈ terms, t.name ≠ name := by
  simp [termsOf]

namespace Expression

/-- Terms of other variables do not bear on a coefficient. -/
theorem coeff?_foldl (terms : List Term) (e : Expression) (name : String) :
    (terms.foldl accumulate e).coeff? name =
      (coefficientsOf name terms).foldl addTo (e.coeff? name) := by
  induction terms generalizing e with
  | nil => rfl
  | cons t terms ih =>
    rw [List.foldl_cons, ih, coeff?_accumulate]
    by_cases ht : t.name = name
    · subst ht
      rw [if_pos rfl, coefficientsOf, coefficientsOf, termsOf_cons_self, List.map_cons,
        List.foldl_cons]
    · rw [if_neg ht, coefficientsOf, coefficientsOf, termsOf_cons_of_ne terms ht]

/-- The coefficient of a variable in a sum is the total of its own terms. -/
theorem coeff?_sum (terms : List Term) (name : String) :
    (sum terms).coeff? name = present? (runningTotal (coefficientsOf name terms)) := by
  have hzero : present? 0 = none := by decide
  rw [sum, coeff?_foldl, coeff?_empty, ← hzero, foldl_addTo _ fun _ => rfl, runningTotal]

end Expression

/-! ## Reordering -/

/-- Whether two lists of terms differ only in the order in which terms of different variables come:
    neighbours that do not name the same variable may change places. -/
inductive Reordered : List Term → List Term → Prop
  | refl (terms : List Term) : Reordered terms terms
  | swap {t u : Term} (h : t.name ≠ u.name) (before after : List Term) :
      Reordered (before ++ t :: u :: after) (before ++ u :: t :: after)
  | trans {terms terms' terms'' : List Term} (h : Reordered terms terms')
      (h' : Reordered terms' terms'') : Reordered terms terms''

namespace Reordered

theorem cons (t : Term) {terms terms' : List Term} (h : Reordered terms terms') :
    Reordered (t :: terms) (t :: terms') := by
  induction h with
  | refl terms => exact .refl _
  | swap hne before after => exact .swap hne (t :: before) after
  | trans _ _ ih ih' => exact ih.trans ih'

theorem front {t : Term} {before : List Term} (after : List Term)
    (h : ∀ u ∈ before, u.name ≠ t.name) :
    Reordered (t :: (before ++ after)) (before ++ t :: after) := by
  induction before with
  | nil => exact .refl _
  | cons u before ih =>
    have hne : t.name ≠ u.name := (h u (by simp)).symm
    refine (swap hne [] (before ++ after)).trans ?_
    exact (ih fun v hv => h v (List.mem_cons_of_mem _ hv)).cons u

theorem termsOf_eq {terms terms' : List Term} (h : Reordered terms terms') (name : String) :
    termsOf name terms = termsOf name terms' := by
  induction h with
  | refl => rfl
  | @swap t u hne before after =>
    rw [termsOf_append, termsOf_append]
    congr 1
    by_cases ht : t.name = name
    · subst ht
      rw [termsOf_cons_self, termsOf_cons_of_ne _ hne.symm, termsOf_cons_of_ne _ hne.symm,
        termsOf_cons_self]
    · by_cases hu : u.name = name
      · subst hu
        rw [termsOf_cons_of_ne _ ht, termsOf_cons_self, termsOf_cons_self,
          termsOf_cons_of_ne _ ht]
      · simp only [termsOf_cons_of_ne _ ht, termsOf_cons_of_ne _ hu]
  | trans _ _ ih ih' => exact ih.trans ih'

end Reordered

/-- Terms can be reordered into others exactly if each variable has the same terms in the same
    order. -/
theorem reordered_iff {terms terms' : List Term} :
    Reordered terms terms' ↔ ∀ name, termsOf name terms = termsOf name terms' := by
  refine ⟨Reordered.termsOf_eq, ?_⟩
  intro h
  induction terms generalizing terms' with
  | nil =>
    rcases terms' with _ | ⟨u, terms'⟩
    · exact .refl []
    · have hu := h u.name
      rw [termsOf_cons_self] at hu
      cases hu
  | cons t terms ih =>
    -- The first term of the same variable in the other list is the same term.
    have hfirst : terms'.filter (fun u => u.name = t.name) = t :: termsOf t.name terms := by
      rw [← termsOf_cons_self]
      exact (h t.name).symm
    obtain ⟨before, after, rfl, hbefore, -, hafter⟩ := List.filter_eq_cons_iff.1 hfirst
    have hother : ∀ u ∈ before, u.name ≠ t.name := by simpa using hbefore
    refine ((ih fun name => ?_).cons t).trans (Reordered.front after hother)
    have hname := h name
    by_cases ht : t.name = name
    · subst ht
      rw [termsOf_append, termsOf_eq_nil_iff.2 hother, List.nil_append]
      exact hafter.symm
    · rwa [termsOf_cons_of_ne _ ht, termsOf_append, termsOf_cons_of_ne _ ht,
        ← termsOf_append] at hname

/-! ## Lines -/

namespace Grammar.Split

/-- What a variable's terms contribute to its total: the first term of an expression its signed
    coefficient, and a later term that of the term times the factor before it. -/
def summandsOf (name : String) (s : Split) : List Binary64 :=
  ([s.first].filter fun t => t.term.name = name).map (·.coefficient.value) ++
    (s.links.filter fun l => l.monomial.term.name = name).map fun l =>
      Binary64.factor l.sign * l.monomial.coefficient.value

theorem coefficientsOf_terms (s : Split) (name : String) :
    coefficientsOf name s.terms = s.summandsOf name := by
  have hfirst : coefficientsOf name [s.first.term] =
      ([s.first].filter fun t => t.term.name = name).map (·.coefficient.value) := by
    rw [coefficientsOf, termsOf, ← List.map_singleton, List.filter_map, List.map_map]
    rfl
  have hlinks : coefficientsOf name (s.links.map Link.term) =
      (s.links.filter fun l => l.monomial.term.name = name).map fun l =>
        Binary64.factor l.sign * l.monomial.coefficient.value := by
    rw [coefficientsOf, termsOf, List.filter_map, List.map_map]
    refine List.map_congr_left fun l _ => ?_
    rw [Binary64.factor_mul]
    rfl
  rw [summandsOf, ← hfirst, ← hlinks, coefficientsOf, coefficientsOf, coefficientsOf,
    ← List.map_append, ← termsOf_append]
  rfl

end Grammar.Split

/-- The terms of the text at a position add up to the expression that is read there. -/
theorem eq_sum_of_expressionAt {line : String} {pos last : Nat} {e : Expression} {s : Split}
    (htext : IsTextAt line pos s.chars) (h : expressionAt line pos = .ok (e, last)) :
    e = .sum s.terms ∧ StartsAt line last s.tail := by
  obtain ⟨s', hs', rfl, hlast⟩ := (expressionAt_eq_ok_iff line pos).1 h
  obtain rfl := Split.chars_injective (hs'.trans (textFrom_of_isTextAt htext))
  exact ⟨rfl, hlast⟩

/-- **Each variable has the total of its own terms.** In a sum of terms the coefficient of a
    variable is the running total of the coefficients of its terms, and it is absent exactly when
    that compares equal to zero. In an expression that is read from a line the terms contribute
    their coefficients under the signs before them, and terms of different variables may be
    reordered. -/
theorem Expression.coeff?_eq_total :
    (∀ (terms : List Term) (name : String),
      (sum terms).coeff? name = present? (runningTotal (coefficientsOf name terms)) ∧
        (name ∈ (sum terms).names ↔
          (runningTotal (coefficientsOf name terms)).isZero = false) ∧
        (name ∉ terms.map (·.name) → name ∉ (sum terms).names)) ∧
    (∀ (line : String) (pos last : Nat) (e : Expression), expressionAt line pos = .ok (e, last) →
      ∃ s : Split, IsTextAt line pos s.chars ∧ StartsAt line last s.tail ∧
        ∀ name, e.coeff? name = present? (runningTotal (s.summandsOf name))) ∧
    ∀ (line line' : String) (pos pos' last last' : Nat) (e e' : Expression) (s s' : Split),
      expressionAt line pos = .ok (e, last) → IsTextAt line pos s.chars →
      expressionAt line' pos' = .ok (e', last') → IsTextAt line' pos' s'.chars →
      Reordered s.terms s'.terms → ∀ name, e.coeff? name = e'.coeff? name := by
  refine ⟨?_, ?_, ?_⟩
  · intro terms name
    refine ⟨coeff?_sum terms name, ?_, ?_⟩
    · rw [mem_names, coeff?_sum, present?_isSome]
    · intro hname
      rw [mem_names, sum, coeff?_foldl_of_not_mem ∅ hname, coeff?_empty]
      exact Bool.false_ne_true
  · intro line pos last e h
    obtain ⟨s, hs, rfl, hlast⟩ := (expressionAt_eq_ok_iff line pos).1 h
    refine ⟨s, hs ▸ isTextAt_textFrom line pos, hlast, ?_⟩
    intro name
    rw [coeff?_sum, s.coefficientsOf_terms]
  · intro line line' pos pos' last last' e e' s s' h htext h' htext' hreordered name
    obtain ⟨rfl, -⟩ := eq_sum_of_expressionAt htext h
    obtain ⟨rfl, -⟩ := eq_sum_of_expressionAt htext' h'
    rw [coeff?_sum, coeff?_sum, coefficientsOf, coefficientsOf,
      reordered_iff.1 hreordered name]

end LinProg
