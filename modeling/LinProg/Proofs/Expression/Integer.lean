import Mathlib.Algebra.Order.BigOperators.Group.List
import LinProg.Proofs.Binary64.Integer
import LinProg.Proofs.Decimal.Nearest
import LinProg.Proofs.Expression.Total
import LinProg.Proofs.Expression.WellFormed

set_option autoImplicit false

/-! # Integer coefficients

The order of the terms of a variable matters only because sums are rounded. Integers are not: while
the magnitudes of a variable's integers and of their sum are together at most `2 ^ 54`, no sum of
some of them is larger than `2 ^ 53` (`two_mul_natAbs_sum_le`), so every running total is the
integer it should be (`isInteger_runningTotal`), and what is read depends on the sums alone.

An expression with integer coefficients is seen here as its contributions, which integer each term
adds to which variable. That forgets how the term is written: `- 2*x` and `+ -02x` contribute the
same. -/

namespace LinProg

open Text Numeral Grammar
open Binary64 (IsInteger)

/-! ## Sums of integers -/

theorem natAbs_sum_le (ints : List Int) : ints.sum.natAbs ≤ (ints.map Int.natAbs).sum := by
  induction ints with
  | nil => exact Nat.le_refl 0
  | cons n ints ih =>
    rw [List.sum_cons, List.map_cons, List.sum_cons]
    exact (Int.natAbs_add_le n ints.sum).trans (Nat.add_le_add_left ih _)

/-- The sum of some integers is bounded by their magnitudes, and also by those of the others and of
    the whole sum. -/
theorem two_mul_natAbs_sum_le {part ints : List Int} (h : part.Sublist ints) :
    2 * part.sum.natAbs ≤ (ints.map Int.natAbs).sum + ints.sum.natAbs := by
  obtain ⟨others, hperm⟩ := h.exists_perm_append
  have hpart := natAbs_sum_le part
  have hothers := natAbs_sum_le others
  rw [(hperm.map _).sum_eq, hperm.sum_eq, List.map_append, List.sum_append, List.sum_append]
  omega

/-! ## Running totals -/

theorem Binary64.IsInteger.addOrReset {total summand : Binary64} {m n : Int}
    (htotal : IsInteger total m) (hsummand : IsInteger summand n) (h : (m + n).natAbs ≤ 2 ^ 53) :
    IsInteger (addOrReset total summand) (m + n) := by
  have hsum := htotal.add hsummand h
  rw [LinProg.addOrReset]
  split
  · next hzero =>
    rw [hsum.isZero_iff.1 hzero]
    exact isInteger_zero
  · exact hsum

theorem isInteger_foldl {summands : List Binary64} {ints : List Int}
    (h : List.Forall₂ IsInteger summands ints) {total : Binary64} {n : Int}
    (htotal : IsInteger total n)
    (hbound : ∀ part, part <+: ints → (n + part.sum).natAbs ≤ 2 ^ 53) :
    IsInteger (summands.foldl addOrReset total) (n + ints.sum) := by
  -- Each step is exact because the sum up to it is one of those that are bounded.
  induction h generalizing total n with
  | nil => rwa [List.sum_nil, add_zero]
  | @cons summand m summands ints hsummand _ ih =>
    have hstep : (n + m).natAbs ≤ 2 ^ 53 := by
      have hfirst := hbound [m] (by simp)
      rwa [List.sum_singleton] at hfirst
    have hrest : ∀ part, part <+: ints → (n + m + part.sum).natAbs ≤ 2 ^ 53 := by
      intro part hpart
      have hlonger := hbound (m :: part) (by simpa using hpart)
      rwa [List.sum_cons, ← add_assoc] at hlonger
    rw [List.foldl_cons, List.sum_cons, ← add_assoc]
    exact ih (htotal.addOrReset hsummand hstep) hrest

/-- The total of integers is their sum if nothing on the way to it can be too large. -/
theorem isInteger_runningTotal {summands : List Binary64} {ints : List Int}
    (h : List.Forall₂ IsInteger summands ints)
    (hbound : (ints.map Int.natAbs).sum + ints.sum.natAbs ≤ 2 ^ 54) :
    IsInteger (runningTotal summands) ints.sum := by
  have hprefix : ∀ part, part <+: ints → (0 + part.sum).natAbs ≤ 2 ^ 53 := by
    intro part hpart
    have hpart_sum := two_mul_natAbs_sum_le hpart.sublist
    rw [zero_add]
    omega
  have htotal := isInteger_foldl h Binary64.isInteger_zero hprefix
  rwa [zero_add] at htotal

section Present

variable {x y : Binary64} {n : Int} (hx : IsInteger x n)

include hx

theorem present?_eq_none_iff : present? x = none ↔ n = 0 := by
  rw [← Option.not_isSome_iff_eq_none, present?_isSome, Bool.not_eq_false, hx.isZero_iff]

theorem isInteger_getD_present? : IsInteger ((present? x).getD 0) n := by
  by_cases hn : n = 0
  · rw [(present?_eq_none_iff hx).2 hn, hn]
    exact Binary64.isInteger_zero
  · have hnonzero : ¬ x.isZero = true := fun hzero => hn (hx.isZero_iff.1 hzero)
    rw [present?, if_neg hnonzero]
    exact hx

/-- What is present depends on the integer alone. -/
theorem present?_congr (hy : IsInteger y n) : present? x = present? y := by
  by_cases hn : n = 0
  · rw [(present?_eq_none_iff hx).2 hn, (present?_eq_none_iff hy).2 hn]
  · rw [hx.unique hy hn]

end Present

/-! ## Integer literals -/

theorem Sign.natAbs_apply (sign : Sign) (n : Int) : (sign.apply n).natAbs = n.natAbs := by
  cases sign with
  | plus => rfl
  | minus => exact Int.natAbs_neg n

theorem Sign.apply_times (s t : Sign) (n : Int) : (s.times t).apply n = s.apply (t.apply n) := by
  cases s with
  | plus => rfl
  | minus =>
    cases t with
    | plus => rfl
    | minus => exact (Int.neg_neg n).symm

theorem Binary64.isInteger_one : IsInteger one (1 : Nat) := by
  have hunit : (2 : ℚ) ^ 1074 ≠ 0 := (pow_pos two_pos 1074).ne'
  refine ⟨rfl, ?_⟩
  show (units oneRank.val : ℚ) / 2 ^ 1074 = _
  rw [units_oneRank, Nat.cast_pow, Nat.cast_ofNat, div_self hunit, Nat.cast_one, Int.cast_one]

/-- A decimal without a fraction is read as the integer that it is. -/
theorem Decimal.isInteger_toBinary64 {d : Decimal} (h : d.exponent = 0)
    (hbound : d.significand ≤ 2 ^ 53) : IsInteger (d.toBinary64 .plus) d.significand := by
  obtain ⟨rank, hrank, heq⟩ := d.exists_isNearest_toBinary64
  rw [value, h, zpow_zero, mul_one] at hrank
  rw [heq]
  exact Binary64.isInteger_ofRank .plus hrank hbound

namespace Grammar

namespace Coefficient

/-- Whether a coefficient's magnitude is missing or a literal of digits alone. -/
def IsIntegral (c : Coefficient) : Prop :=
  ∀ m, c.magnitude = some m → m.fraction = []

/-- The natural number that the digits of a magnitude say, one if there is no magnitude. -/
def magnitudeNat (magnitude : Option Magnitude) : Nat :=
  (magnitude.map fun m => Nat.ofDigitChars 10 m.whole 0).getD 1

/-- The integer that such a coefficient says. -/
def integer (c : Coefficient) : Int :=
  (c.sign.getD .plus).apply (magnitudeNat c.magnitude : Int)

theorem natAbs_integer (c : Coefficient) : c.integer.natAbs = magnitudeNat c.magnitude := by
  rw [integer, Sign.natAbs_apply, Int.natAbs_natCast]

theorem isInteger_value {c : Coefficient} (h : c.IsIntegral) (hbound : c.integer.natAbs ≤ 2 ^ 53) :
    IsInteger c.value c.integer := by
  have hmagnitude : IsInteger (magnitudeValue c.magnitude) (magnitudeNat c.magnitude) := by
    rw [natAbs_integer] at hbound
    rw [IsIntegral] at h
    cases hc : c.magnitude with
    | none => exact Binary64.isInteger_one
    | some m =>
      have hdecimal : m.decimal = ⟨Nat.ofDigitChars 10 m.whole 0, 0⟩ := by
        rw [Magnitude.decimal, h m hc, Decimal.ofDigits, List.append_nil]
        rfl
      rw [hc] at hbound
      show IsInteger (m.decimal.toBinary64 .plus) _
      rw [hdecimal]
      exact Decimal.isInteger_toBinary64 rfl hbound
  exact hmagnitude.apply _

end Coefficient

/-! ## Contributions -/

/-- What a term adds to which variable. -/
structure Contribution where
  name : String
  amount : Int
  deriving DecidableEq

namespace Contribution

def opposite (c : Contribution) : Contribution :=
  { c with amount := -c.amount }

/-- The integers that are added to a variable, in order. -/
def amountsOf (name : String) (cs : List Contribution) : List Int :=
  (cs.filter fun c => c.name = name).map (·.amount)

/-- The integer sum of what is added to a variable. -/
def totalOf (name : String) (cs : List Contribution) : Int :=
  (amountsOf name cs).sum

/-- The sum of the magnitudes of all that is added. -/
def weight (cs : List Contribution) : Nat :=
  (cs.map fun c => c.amount.natAbs).sum

/-- Whether no variable's integers, in whatever order, lead to a sum that would be rounded. -/
def Bounded (cs : List Contribution) : Prop :=
  ∀ name, ((amountsOf name cs).map Int.natAbs).sum + (totalOf name cs).natAbs ≤ 2 ^ 54

variable {cs cs' : List Contribution}

theorem amountsOf_append (name : String) :
    amountsOf name (cs ++ cs') = amountsOf name cs ++ amountsOf name cs' := by
  rw [amountsOf, List.filter_append, List.map_append, amountsOf, amountsOf]

theorem amountsOf_opposite (name : String) :
    amountsOf name (cs.map opposite) = (amountsOf name cs).map (-·) := by
  rw [amountsOf, List.filter_map, List.map_map, amountsOf, List.map_map]
  rfl

theorem perm_amountsOf (h : cs.Perm cs') (name : String) :
    (amountsOf name cs).Perm (amountsOf name cs') :=
  (h.filter _).map _

theorem totalOf_perm (h : cs.Perm cs') (name : String) : totalOf name cs = totalOf name cs' :=
  (perm_amountsOf h name).sum_eq

theorem Bounded.perm (h : Bounded cs) (hperm : cs.Perm cs') : Bounded cs' := by
  intro name
  rw [← totalOf_perm hperm, ← ((perm_amountsOf hperm name).map _).sum_eq]
  exact h name

theorem sum_natAbs_amountsOf_le (name : String) (cs : List Contribution) :
    ((amountsOf name cs).map Int.natAbs).sum ≤ weight cs := by
  rw [amountsOf, List.map_map]
  exact (List.filter_sublist.map _).sum_le_sum fun n _ => Nat.zero_le n

/-- The condition on the sum of all magnitudes. -/
theorem bounded_of_weight_le (h : weight cs ≤ 2 ^ 53) : Bounded cs := by
  intro name
  have hamounts := sum_natAbs_amountsOf_le name cs
  have htotal := natAbs_sum_le (amountsOf name cs)
  rw [totalOf]
  omega

theorem sum_map_neg (ints : List Int) : (ints.map (-·)).sum = -ints.sum := by
  induction ints with
  | nil => rfl
  | cons n ints ih => rw [List.map_cons, List.sum_cons, List.sum_cons, ih, neg_add]

/-- Nothing is left of contributions and their opposites. -/
theorem totalOf_append_opposite (name : String) (cs : List Contribution) :
    totalOf name (cs ++ cs.map opposite) = 0 := by
  rw [totalOf, amountsOf_append, amountsOf_opposite, List.sum_append, sum_map_neg, add_neg_cancel]

/-- Contributions with their opposites weigh twice as much, but their sums are zero. -/
theorem bounded_append_opposite (h : weight cs ≤ 2 ^ 53) :
    Bounded (cs ++ cs.map opposite) := by
  intro name
  have hamounts := sum_natAbs_amountsOf_le name cs
  have hopposite : Int.natAbs ∘ (-·) = Int.natAbs := funext Int.natAbs_neg
  rw [totalOf_append_opposite, amountsOf_append, amountsOf_opposite, List.map_append, List.map_map,
    hopposite, List.sum_append]
  omega

/-- An integer that is added to a variable is not too large itself. -/
theorem Bounded.natAbs_amount_le (h : Bounded cs) {c : Contribution} (hc : c ∈ cs) :
    c.amount.natAbs ≤ 2 ^ 53 := by
  have hmem : c.amount ∈ amountsOf c.name cs :=
    List.mem_map_of_mem (List.mem_filter.2 ⟨hc, decide_eq_true rfl⟩)
  have hsingle := two_mul_natAbs_sum_le (List.singleton_sublist.2 hmem)
  have hname := h c.name
  rw [List.sum_singleton] at hsingle
  rw [totalOf] at hname
  omega

end Contribution

open Contribution

namespace Monomial

/-- What a term with an integral coefficient adds under the sign before it. -/
def contribution (sign : Sign) (t : Monomial) : Contribution :=
  ⟨String.ofList t.name.chars, sign.apply t.coefficient.integer⟩

/-- Whether a term of the grammar can be read as a contribution. -/
def Writes (t : Monomial) (c : Contribution) : Prop :=
  t.coefficient.IsIntegral ∧ t.contribution .plus = c

/-- A sign before a term can as well be the term's own. -/
theorem exists_writes (sign : Sign) {t : Monomial} (h : t.coefficient.IsIntegral) :
    ∃ u : Monomial, u.Writes (t.contribution sign) := by
  let own : Sign := t.coefficient.sign.getD .plus
  exact ⟨⟨{ t.coefficient with sign := some (sign.times own) }, t.name⟩, h,
    congrArg (Contribution.mk _) (Sign.apply_times sign own _)⟩

theorem Writes.exists_opposite {t : Monomial} {c : Contribution} (h : t.Writes c) :
    ∃ u : Monomial, u.Writes c.opposite := by
  obtain ⟨hintegral, rfl⟩ := h
  exact exists_writes .minus hintegral

/-- Such a term stands for its contribution. -/
theorem isInteger_signed {t : Monomial} (sign : Sign) (h : t.coefficient.IsIntegral)
    (hbound : (t.contribution sign).amount.natAbs ≤ 2 ^ 53) :
    IsInteger (t.term.signed sign).coefficient (t.contribution sign).amount := by
  rw [contribution, Sign.natAbs_apply] at hbound
  exact (Coefficient.isInteger_value h hbound).apply sign

end Monomial

namespace Split

/-- Whether all coefficients are integral. -/
structure IsIntegral (s : Split) : Prop where
  first : s.first.coefficient.IsIntegral
  links : ∀ l ∈ s.links, l.monomial.coefficient.IsIntegral

def contributions (s : Split) : List Contribution :=
  s.first.contribution .plus :: s.links.map fun l => l.monomial.contribution l.sign

/-- Whether an expression is a way to write contributions. -/
structure Writes (s : Split) (cs : List Contribution) : Prop where
  isIntegral : s.IsIntegral
  contributions_eq : s.contributions = cs

variable {s s' : Split} {cs cs' : List Contribution}

theorem IsIntegral.exists_writes (h : s.IsIntegral) {c : Contribution} (hc : c ∈ s.contributions) :
    ∃ t : Monomial, t.Writes c := by
  rcases List.mem_cons.1 hc with rfl | hlink
  · exact ⟨s.first, h.first, rfl⟩
  · obtain ⟨l, hl, rfl⟩ := List.mem_map.1 hlink
    exact Monomial.exists_writes l.sign (h.links l hl)

/-- Contributions that can be written one by one can be written as an expression. -/
theorem exists_writes (hne : cs ≠ []) (h : ∀ c ∈ cs, ∃ t : Monomial, t.Writes c) :
    ∃ s : Split, s.Writes cs := by
  obtain ⟨c, cs, rfl⟩ := List.exists_cons_of_ne_nil hne
  have : Nonempty Monomial := (h c (by simp)).nonempty
  choose! t ht using h
  refine ⟨.ofLinks (t c) (cs.map fun d => ⟨blanks 1, .plus, blanks 1, t d⟩), ⟨?_, ?_⟩, ?_⟩
  · exact (ht c (by simp)).1
  · intro l hl
    obtain ⟨d, hd, rfl⟩ := List.mem_map.1 hl
    exact (ht d (List.mem_cons_of_mem c hd)).1
  · rw [contributions, ofLinks, List.map_map]
    refine congrArg₂ List.cons (ht c (by simp)).2 ?_
    conv_rhs => rw [← List.map_id cs]
    exact List.map_congr_left fun d hd => (ht d (List.mem_cons_of_mem c hd)).2

/-! ## What is read -/

/-- Each term stands for its contribution. -/
theorem forall₂_contributions (h : s.IsIntegral) (hbound : Bounded s.contributions) :
    List.Forall₂ (fun t c => t.name = c.name ∧ IsInteger t.coefficient c.amount) s.terms
      s.contributions := by
  refine .cons ⟨rfl, ?_⟩ ?_
  · have hmem : s.first.contribution .plus ∈ s.contributions := List.mem_cons_self
    exact Monomial.isInteger_signed .plus h.first (hbound.natAbs_amount_le hmem)
  · rw [List.forall₂_map_left_iff, List.forall₂_map_right_iff, List.forall₂_same]
    intro l hl
    have hmem : l.monomial.contribution l.sign ∈ s.contributions :=
      List.mem_cons_of_mem _ (List.mem_map_of_mem hl)
    exact ⟨rfl, Monomial.isInteger_signed l.sign (h.links l hl) (hbound.natAbs_amount_le hmem)⟩

/-- A variable's coefficient is the integer sum of what is added to the variable. -/
theorem exists_isInteger_coeff? (h : s.IsIntegral) (hbound : Bounded s.contributions)
    (name : String) :
    ∃ x, IsInteger x (totalOf name s.contributions) ∧
      (Expression.sum s.terms).coeff? name = present? x := by
  have hfilter : List.Forall₂ (fun t c => t.name = c.name ∧ IsInteger t.coefficient c.amount)
      (termsOf name s.terms) (s.contributions.filter fun c => c.name = name) := by
    refine List.rel_filter ?_ (forall₂_contributions h hbound)
    intro t c htc
    simp only [htc.1]
  have hsummands : List.Forall₂ IsInteger (coefficientsOf name s.terms)
      (amountsOf name s.contributions) := by
    rw [coefficientsOf, amountsOf, List.forall₂_map_left_iff, List.forall₂_map_right_iff]
    exact hfilter.imp fun _ _ htc => htc.2
  exact ⟨_, isInteger_runningTotal hsummands (hbound name), Expression.coeff?_sum s.terms name⟩

/-- Equal sums make equal expressions. -/
theorem sum_terms_congr (h : s.IsIntegral) (hbound : Bounded s.contributions) (h' : s'.IsIntegral)
    (hbound' : Bounded s'.contributions)
    (htotal : ∀ name, totalOf name s.contributions = totalOf name s'.contributions) :
    Expression.sum s.terms = Expression.sum s'.terms := by
  apply Expression.ext_coeff?
  intro name
  obtain ⟨x, hx, hcoeff⟩ := exists_isInteger_coeff? h hbound name
  obtain ⟨y, hy, hcoeff'⟩ := exists_isInteger_coeff? h' hbound' name
  rw [hcoeff, hcoeff', present?_congr hx (htotal name ▸ hy)]

theorem sum_terms_eq_empty (h : s.IsIntegral) (hbound : Bounded s.contributions)
    (htotal : ∀ name, totalOf name s.contributions = 0) : Expression.sum s.terms = ∅ := by
  apply Expression.ext_coeff?
  intro name
  obtain ⟨x, hx, hcoeff⟩ := exists_isInteger_coeff? h hbound name
  rw [hcoeff, (present?_eq_none_iff hx).2 (htotal name), Expression.coeff?_empty]

end Split

end Grammar

open Contribution

/-- Contributions can be written as an expression, and however that is done, with whatever spaces,
    signs and zeros, and wherever the text stands, the same expression is read. -/
def ReadsAs (cs : List Contribution) (e : Expression) : Prop :=
  (∃ s : Split, s.Writes cs) ∧
    ∀ (s : Split) (line : String) (pos : Nat), s.Writes cs → IsTextAt line pos s.chars →
      ∃ last, expressionAt line pos = .ok (e, last)

theorem readsAs_of_perm {cs ds : List Contribution} {e : Expression} (hperm : cs.Perm ds)
    (hne : ds ≠ []) (hwrites : ∀ c ∈ ds, ∃ t : Monomial, t.Writes c)
    (hsum : ∀ s : Split, s.IsIntegral → s.contributions.Perm ds → Expression.sum s.terms = e) :
    ReadsAs cs e := by
  have hcs : cs ≠ [] := by
    rintro rfl
    exact hne hperm.nil_eq.symm
  refine ⟨Split.exists_writes hcs fun c hc => hwrites c (hperm.mem_iff.1 hc), ?_⟩
  rintro s line pos ⟨hintegral, rfl⟩ htext
  rw [← hsum s hintegral hperm]
  exact Split.exists_expressionAt_of_isTextAt htext

/-- **Integer coefficients are exact.** Where all coefficients of an expression that is read are
    missing or integer literals whose magnitudes add up to at most `2 ^ 53`, the coefficient of each
    variable is the integer sum of what its terms contribute, and the variable is absent exactly if
    that is zero. So the terms can be written in any order, and if all of them are repeated under
    the opposite sign, nothing is left. -/
theorem integer_coefficients_exact {line : String} {pos last : Nat} {e : Expression} {s : Split}
    (h : expressionAt line pos = .ok (e, last)) (htext : IsTextAt line pos s.chars)
    (hintegral : s.IsIntegral) (hweight : weight s.contributions ≤ 2 ^ 53) :
    (∀ name, IsInteger (e.coeff name) (totalOf name s.contributions) ∧
      (e.coeff? name = none ↔ totalOf name s.contributions = 0)) ∧
    (∀ cs, cs.Perm s.contributions → ReadsAs cs e) ∧
    ∀ cs, cs.Perm (s.contributions ++ s.contributions.map opposite) → ReadsAs cs ∅ := by
  obtain ⟨rfl, -⟩ := eq_sum_of_expressionAt htext h
  have hbound := bounded_of_weight_le hweight
  refine ⟨?_, ?_, ?_⟩
  · intro name
    obtain ⟨x, hx, hcoeff⟩ := Split.exists_isInteger_coeff? hintegral hbound name
    rw [Expression.coeff, hcoeff]
    exact ⟨isInteger_getD_present? hx, present?_eq_none_iff hx⟩
  · intro cs hperm
    refine readsAs_of_perm hperm (List.cons_ne_nil _ _) (fun c => hintegral.exists_writes) ?_
    intro s' hintegral' hperm'
    exact Split.sum_terms_congr hintegral' (hbound.perm hperm'.symm) hintegral hbound
      (totalOf_perm hperm')
  · intro cs hperm
    have hwrites : ∀ c ∈ s.contributions ++ s.contributions.map opposite,
        ∃ t : Monomial, t.Writes c := by
      intro c hc
      rcases List.mem_append.1 hc with hterm | hopposite
      · exact hintegral.exists_writes hterm
      · obtain ⟨d, hd, rfl⟩ := List.mem_map.1 hopposite
        obtain ⟨t, ht⟩ := hintegral.exists_writes hd
        exact ht.exists_opposite
    refine readsAs_of_perm hperm (List.cons_ne_nil _ _) hwrites ?_
    intro s' hintegral' hperm'
    have hbound' := (bounded_append_opposite hweight).perm hperm'.symm
    refine Split.sum_terms_eq_empty hintegral' hbound' fun name => ?_
    rw [totalOf_perm hperm', totalOf_append_opposite]

/-- Three terms whose magnitudes add up to `2 ^ 53`. -/
theorem exists_split_sample : ∃ s : Split, s.chars = "9007199254740989x - 2*y + -x".toList ∧
    s.IsIntegral ∧ s.contributions = [⟨"x", 9007199254740989⟩, ⟨"y", -2⟩, ⟨"x", -1⟩] := by
  let long : Magnitude :=
    ⟨['9', '0', '0', '7', '1', '9', '9', '2', '5', '4', '7', '4', '0', '9', '8', '9'], [], by simp,
      by simp, .inl (List.cons_ne_nil _ _)⟩
  let two : Magnitude := ⟨['2'], [], by simp, by simp, .inl (List.cons_ne_nil _ _)⟩
  let x : Name := ⟨'x', [], by decide, by simp⟩
  let y : Name := ⟨'y', [], by decide, by simp⟩
  refine ⟨.ofLinks ⟨⟨none, some long, false⟩, x⟩
    [⟨blanks 1, .minus, blanks 1, ⟨⟨none, some two, true⟩, y⟩⟩,
      ⟨blanks 1, .plus, blanks 1, ⟨⟨some .minus, none, false⟩, x⟩⟩], by decide +kernel, ?_,
    by decide +kernel⟩
  constructor <;> simp [Split.ofLinks, Coefficient.IsIntegral, long, two]

theorem integer_coefficients_exact_sample :
    ∃ e last, expressionAt "9007199254740989x - 2*y + -x" 0 = .ok (e, last) ∧
      IsInteger (e.coeff "x") 9007199254740988 ∧ IsInteger (e.coeff "y") (-2) ∧
      e.coeff? "z" = none ∧ ReadsAs [⟨"y", -2⟩, ⟨"x", -1⟩, ⟨"x", 9007199254740989⟩] e ∧
      ReadsAs [⟨"x", 9007199254740989⟩, ⟨"y", -2⟩, ⟨"x", -1⟩, ⟨"x", -9007199254740989⟩, ⟨"y", 2⟩,
        ⟨"x", 1⟩] ∅ := by
  obtain ⟨s, hchars, hintegral, hcontributions⟩ := exists_split_sample
  have htext : IsTextAt "9007199254740989x - 2*y + -x" 0 s.chars := .inl ⟨[], hchars.symm, rfl⟩
  obtain ⟨last, hread⟩ := Split.exists_expressionAt_of_isTextAt htext
  have hweight : weight s.contributions ≤ 2 ^ 53 := by
    rw [hcontributions]
    decide
  obtain ⟨hcoeff, hreordered, hcancelled⟩ :=
    integer_coefficients_exact hread htext hintegral hweight
  rw [hcontributions] at hcoeff hreordered hcancelled
  exact ⟨_, last, hread, (hcoeff "x").1, (hcoeff "y").1, (hcoeff "z").2.2 rfl,
    hreordered _ (by decide), hcancelled _ (by decide)⟩

end LinProg
