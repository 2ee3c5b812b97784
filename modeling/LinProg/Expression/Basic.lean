import Std.Data.ExtTreeMap
import LinProg.Decimal.Layout

set_option autoImplicit false

/-! # Linear expressions

A linear expression holds one coefficient per variable, in the order of the variables' names. It is
the sum of its terms: `accumulate` adds a term to the coefficient of its variable and drops the
variable when the total compares equal to zero. What an expression is, is seen through the look-up
`coeff?`: two expressions with the same look-ups are equal (`ext_coeff?`), and every operation has
one lemma that says what it does to the look-up. -/

namespace LinProg

/-- One occurrence of a variable, scaled by a coefficient. -/
structure Term where
  name : String
  coefficient : Binary64
  deriving DecidableEq

def Term.signed (sign : Sign) (t : Term) : Term :=
  { t with coefficient := sign.apply t.coefficient }

/-- The term apart: its sign, its magnitude and its variable. The sign is `+` when the coefficient
    compares greater than or equal to zero. -/
def Term.text (t : Term) : String :=
  (if t.coefficient.isNonnegative then "+ " else "- ") ++ t.coefficient.abs.text ++ " " ++ t.name

structure Expression where
  coefficients : Std.ExtTreeMap String Binary64
  deriving DecidableEq

namespace Expression

/-! ## Look-up -/

/-- The coefficient of a variable, if the variable occurs. -/
def coeff? (e : Expression) (name : String) : Option Binary64 :=
  e.coefficients[name]?

/-- The coefficient of a variable, `+0` if the variable does not occur. -/
def coeff (e : Expression) (name : String) : Binary64 :=
  (e.coeff? name).getD 0

/-- The names of the variables that occur, in increasing order. -/
def names (e : Expression) : List String :=
  e.coefficients.keys

/-- The variables that occur with their coefficients, in the order of the names. -/
def terms (e : Expression) : List Term :=
  e.coefficients.toList.map fun entry => ⟨entry.1, entry.2⟩

/-- The look-up determines the expression. -/
theorem ext_coeff? {d e : Expression} (h : ∀ name, d.coeff? name = e.coeff? name) : d = e := by
  cases d
  cases e
  exact congrArg Expression.mk (Std.ExtTreeMap.ext_getElem? h)

theorem mem_names {e : Expression} {name : String} :
    name ∈ e.names ↔ (e.coeff? name).isSome := by
  simp [names, coeff?]

/-- The terms are the look-ups that succeed. -/
theorem mem_terms {e : Expression} {t : Term} :
    t ∈ e.terms ↔ e.coeff? t.name = some t.coefficient := by
  obtain ⟨name, c⟩ := t
  rw [coeff?, ← Std.ExtTreeMap.mem_toList_iff_getElem?_eq_some]
  constructor
  · intro h
    obtain ⟨entry, he, hEq⟩ := List.mem_map.1 h
    cases hEq
    exact he
  · exact fun h => List.mem_map.2 ⟨(name, c), h, rfl⟩

/-! ## Sums of terms -/

def empty : Expression := ⟨∅⟩

instance : EmptyCollection Expression := ⟨empty⟩

/-- A running total with one more summand, forgotten when it compares equal to zero. -/
def addTo (total? : Option Binary64) (summand : Binary64) : Option Binary64 :=
  let total := total?.getD 0 + summand
  if total.isZero then none else some total

/-- Add a term to the coefficient of its variable. -/
def accumulate (e : Expression) (t : Term) : Expression :=
  ⟨e.coefficients.alter t.name (addTo · t.coefficient)⟩

/-- The sum of terms, added up from the first to the last. -/
def sum (terms : List Term) : Expression :=
  terms.foldl accumulate ∅

def negate (e : Expression) : Expression :=
  ⟨e.coefficients.map fun _ coefficient => -coefficient⟩

/-- The expression that holds given terms as they are, zeros included. Of several for one variable
    the last one counts. -/
def ofTerms (terms : List Term) : Expression :=
  ⟨.ofList (terms.map fun t => (t.name, t.coefficient))⟩

@[simp] theorem coeff?_empty (name : String) : (∅ : Expression).coeff? name = none :=
  Std.ExtTreeMap.getElem?_empty

theorem coeff?_accumulate (e : Expression) (t : Term) (name : String) :
    (e.accumulate t).coeff? name =
      if t.name = name then addTo (e.coeff? name) t.coefficient else e.coeff? name := by
  simp only [accumulate, coeff?, Std.ExtTreeMap.getElem?_alter, Std.LawfulEqCmp.compare_eq_iff_eq]
  split
  · subst_vars
    rfl
  · rfl

theorem coeff?_negate (e : Expression) (name : String) :
    e.negate.coeff? name = (e.coeff? name).map (-·) := by
  simp [negate, coeff?]

/-! ## Expressions without zeros -/

/-- Whether no coefficient compares equal to zero. -/
def ZeroFree (e : Expression) : Prop :=
  ∀ name c, e.coeff? name = some c → c.isZero = false

theorem zeroFree_empty : ZeroFree ∅ := by
  intro name c h
  simp at h

theorem isZero_of_addTo {total? : Option Binary64} {summand total : Binary64}
    (h : addTo total? summand = some total) : total.isZero = false := by
  simp only [addTo] at h
  split at h
  · cases h
  · next hz =>
    injection h with h
    rw [← h]
    exact Bool.eq_false_iff.2 hz

theorem ZeroFree.accumulate {e : Expression} (h : e.ZeroFree) (t : Term) :
    (e.accumulate t).ZeroFree := by
  intro name c hc
  rw [coeff?_accumulate] at hc
  split at hc
  · exact isZero_of_addTo hc
  · exact h name c hc

theorem ZeroFree.negate {e : Expression} (h : e.ZeroFree) : e.negate.ZeroFree := by
  intro name c hc
  rw [coeff?_negate] at hc
  cases hn : e.coeff? name with
  | none => simp [hn] at hc
  | some a =>
    rw [hn] at hc
    injection hc with hc
    rw [← hc, Binary64.isZero_neg]
    exact h name a hn

/-! ## Text -/

/-- The terms in the order of the names, or `0` if there are none. -/
def text (e : Expression) : String :=
  if e.terms.isEmpty then "0" else " ".intercalate (e.terms.map Term.text)

end Expression

end LinProg
