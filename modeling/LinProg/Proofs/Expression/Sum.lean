import Mathlib.Data.List.Sort
import LinProg.Expression.Basic
import LinProg.Proofs.Binary64.Exact

set_option autoImplicit false

/-! # Adding up the terms of an expression

The terms of an expression name each variable once, so adding them up never meets a total other than
zero, and every coefficient is what it was (`sum_terms`). -/

namespace LinProg.Expression

theorem nodup_names (e : Expression) : e.names.Nodup :=
  Std.ExtTreeMap.nodup_keys

theorem pairwise_names (e : Expression) : e.names.Pairwise (· < ·) := by
  have h := Std.ExtTreeMap.ordered_keys (t := e.coefficients)
  exact h.imp fun hab => compareOfLessAndEq_eq_lt.1 hab

theorem map_name_terms (e : Expression) : e.terms.map (·.name) = e.names := by
  rw [terms, List.map_map]
  exact Std.ExtTreeMap.map_fst_toList_eq_keys

theorem coeff_of_mem_terms {e : Expression} {t : Term} (h : t ∈ e.terms) :
    e.coeff t.name = t.coefficient := by
  rw [coeff, mem_terms.1 h, Option.getD_some]

theorem coeff_of_not_mem_names {e : Expression} {name : String} (h : name ∉ e.names) :
    e.coeff name = 0 := by
  rw [mem_names, Option.not_isSome_iff_eq_none] at h
  rw [coeff, h, Option.getD_none]

/-- In an expression without zeros the variables that occur are those with a coefficient other than
    zero. -/
theorem ZeroFree.isZero_coeff_eq_false_iff {e : Expression} (h : e.ZeroFree) {name : String} :
    (e.coeff name).isZero = false ↔ name ∈ e.names := by
  constructor
  · intro hcoeff
    by_contra hname
    rw [coeff_of_not_mem_names hname] at hcoeff
    exact absurd hcoeff (by decide)
  · intro hname
    obtain ⟨c, hc⟩ := Option.isSome_iff_exists.1 (mem_names.1 hname)
    rw [coeff, hc, Option.getD_some, h name c hc]

/-- Terms do not bear on a variable that they do not name. -/
theorem coeff?_foldl_of_not_mem {terms : List Term} {name : String} (d : Expression)
    (h : name ∉ terms.map (·.name)) : (terms.foldl accumulate d).coeff? name = d.coeff? name := by
  induction terms generalizing d with
  | nil => rfl
  | cons t terms ih =>
    rw [List.map_cons, List.mem_cons, not_or] at h
    rw [List.foldl_cons, ih _ h.2, coeff?_accumulate, if_neg (Ne.symm h.1)]

/-- The first summand of a total is the total, unless it compares equal to zero. -/
theorem addTo_none {summand : Binary64} (h : summand.isZero = false) :
    addTo none summand = some summand := by
  rw [addTo, Option.getD_none, Binary64.zero_add_of_isZero h]
  exact if_neg (by simp [h])

/-- A variable that is named once and was not there has the coefficient that its term has. -/
theorem coeff?_foldl_of_mem {terms : List Term} {t : Term} (d : Expression)
    (hnodup : (terms.map (·.name)).Nodup) (hzero : t.coefficient.isZero = false) (ht : t ∈ terms)
    (hd : d.coeff? t.name = none) :
    (terms.foldl accumulate d).coeff? t.name = some t.coefficient := by
  induction terms generalizing d with
  | nil => simp at ht
  | cons u terms ih =>
    rw [List.map_cons, List.nodup_cons] at hnodup
    rw [List.foldl_cons]
    rcases List.mem_cons.1 ht with rfl | ht
    · rw [coeff?_foldl_of_not_mem _ hnodup.1, coeff?_accumulate, if_pos rfl, hd, addTo_none hzero]
    · have hne : u.name ≠ t.name := by
        intro heq
        exact hnodup.1 (heq ▸ List.mem_map_of_mem ht)
      refine ih _ hnodup.2 ht ?_
      rw [coeff?_accumulate, if_neg hne, hd]

/-- An expression without zeros is the sum of its terms. -/
theorem sum_terms {e : Expression} (h : e.ZeroFree) : sum e.terms = e := by
  apply ext_coeff?
  intro name
  cases hname : e.coeff? name with
  | none =>
    have hnot : name ∉ e.terms.map (·.name) := by
      rw [map_name_terms, mem_names, hname]
      simp
    rw [sum, coeff?_foldl_of_not_mem ∅ hnot, coeff?_empty]
  | some c =>
    have hnodup : (e.terms.map (·.name)).Nodup := by
      rw [map_name_terms]
      exact nodup_names e
    have hterm : (⟨name, c⟩ : Term) ∈ e.terms := mem_terms.2 hname
    exact coeff?_foldl_of_mem ∅ hnodup (h name c hname) hterm (coeff?_empty name)

theorem terms_sum_singleton {t : Term} (h : t.coefficient.isZero = false) :
    (sum [t]).names = [t.name] ∧ (sum [t]).coeff? t.name = some t.coefficient := by
  have hcoeff : ∀ name, (sum [t]).coeff? name =
      if t.name = name then some t.coefficient else none := by
    intro name
    rw [sum, List.foldl_cons, List.foldl_nil, coeff?_accumulate, coeff?_empty, addTo_none h]
  refine ⟨?_, by rw [hcoeff, if_pos rfl]⟩
  refine (pairwise_names _).eq_of_mem_iff (List.pairwise_singleton _ _) fun name => ?_
  rw [mem_names, hcoeff, List.mem_singleton]
  by_cases hname : t.name = name
  · simp [hname]
  · simp [hname, Ne.symm hname]

end LinProg.Expression
