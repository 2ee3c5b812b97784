import Mathlib.Data.List.Forall2
import LinProg.Model.Record
import LinProg.Proofs.Json.RoundTrip

set_option autoImplicit false

/-! # What the record of a model says

The record of a model is read back from its text, indented or compact. What is read has the six
members, in order, with the names, the relations and the sign restrictions of the model, and with
its numbers as far as JSON has them: an infinity or what is not a number is stated as null. So a
model whose numbers are all finite is determined by its record (`toJson_injective`). -/

namespace LinProg

open Json

/-! ## Numbers -/

/-- Whether a JSON value stands for a number: the number itself, or null if it is not finite. -/
inductive Json.StandsFor : Json → Binary64 → Prop
  | finite {x : Binary64} (h : x.isFinite = true) : StandsFor (.real x) x
  | notFinite {x : Binary64} (h : x.isFinite = false) : StandsFor .null x

theorem Json.standsFor_ofBinary64 (x : Binary64) : (ofBinary64 x).StandsFor x := by
  unfold ofBinary64
  split
  · next h => exact .finite h
  · next h => exact .notFinite (Bool.eq_false_iff.2 h)

theorem Json.forall₂_standsFor (xs : List Binary64) :
    List.Forall₂ StandsFor (xs.map ofBinary64) xs := by
  rw [List.forall₂_map_left_iff, List.forall₂_same]
  exact fun x _ => standsFor_ofBinary64 x

theorem Json.allFinite_ofBinary64 (x : Binary64) : AllFinite (ofBinary64 x) := by
  unfold ofBinary64
  split
  · next h => exact .real h
  · exact .null

def Json.number : Json → Binary64
  | .real x => x
  | _ => .nan

def Json.numbers : Json → List Binary64
  | .array vs => vs.map number
  | _ => []

theorem Json.number_ofBinary64 {x : Binary64} (h : x.isFinite = true) :
    (ofBinary64 x).number = x := by
  rw [ofBinary64, if_pos h]
  rfl

theorem Json.numbers_ofBinary64s {xs : List Binary64} (h : ∀ x ∈ xs, x.isFinite = true) :
    (ofBinary64s xs).numbers = xs := by
  rw [ofBinary64s, numbers, List.map_map]
  exact (List.map_congr_left fun x hx => number_ofBinary64 (h x hx)).trans (List.map_id xs)

theorem Json.map_numbers_ofBinary64s {rows : List (List Binary64)}
    (h : ∀ row ∈ rows, ∀ x ∈ row, x.isFinite = true) :
    (rows.map ofBinary64s).map numbers = rows := by
  rw [List.map_map]
  exact (List.map_congr_left fun row hrow => numbers_ofBinary64s (h row hrow)).trans
    (List.map_id rows)

namespace Model

/-! ## The record -/

/-- Whether a JSON value is the record of a model: an object with these members and no others, in
    which the matrix is an array of rows. -/
def IsRecord (m : Model) (record : Json) : Prop :=
  ∃ (matrix : List (List Json)) (vectorM vectorN : List Json),
    record = .object [
      ("variables", .array (m.names.map .string)),
      ("matrix", .array (matrix.map .array)),
      ("vectorM", .array vectorM),
      ("vectorN", .array vectorN),
      ("vectorSign", .array (m.relations.map fun r => .integer r.code)),
      ("binaryVectorN", .array (m.nonnegative.map fun b => .integer (if b then 1 else 0)))] ∧
    matrix.length = m.rows.length ∧ (∀ row ∈ matrix, row.length = m.columns.length) ∧
    List.Forall₂ (List.Forall₂ StandsFor) matrix m.matrix ∧
    List.Forall₂ StandsFor vectorM m.bounds ∧ List.Forall₂ StandsFor vectorN m.costs

theorem isRecord_toJson {m : Model}
    (h : ∀ row ∈ m.rows, row.coefficients.length = m.columns.length) : m.IsRecord m.toJson := by
  refine ⟨m.matrix.map (·.map ofBinary64), m.bounds.map ofBinary64, m.costs.map ofBinary64, ?_, ?_,
    ?_, ?_, forall₂_standsFor _, forall₂_standsFor _⟩
  · rw [List.map_map]
    rfl
  · rw [List.length_map, matrix, List.length_map]
  · simp only [matrix, List.map_map, List.forall_mem_map, Function.comp_apply, List.length_map]
    exact h
  · rw [List.forall₂_map_left_iff, List.forall₂_same]
    exact fun row _ => forall₂_standsFor row

theorem allFinite_array_map {α : Type} {f : α → Json} (hf : ∀ a, AllFinite (f a)) (as : List α) :
    AllFinite (.array (as.map f)) := by
  refine .array fun v hv => ?_
  obtain ⟨a, _, rfl⟩ := List.mem_map.1 hv
  exact hf a

/-- Every number in a record is finite, because null stands for the others. -/
theorem allFinite_toJson (m : Model) : AllFinite m.toJson := by
  have hnumbers : ∀ xs, AllFinite (ofBinary64s xs) := allFinite_array_map allFinite_ofBinary64
  refine .object ?_
  simp only [List.forall_mem_cons]
  exact ⟨allFinite_array_map .string _, allFinite_array_map hnumbers _, hnumbers _, hnumbers _,
    allFinite_array_map (fun r => .integer (Relation.code r)) _,
    allFinite_array_map (fun b => .integer (flag b)) _, fun _ h => by cases h⟩

theorem read?_json (m : Model) : read? m.json = some m.toJson :=
  read?_write m.allFinite_toJson (some 0)

theorem read?_compact (m : Model) : read? m.toJson.compact = some m.toJson :=
  read?_write m.allFinite_toJson none

/-! ## Models from records -/

/-- Lists of records are equal if their fields are, taken one by one. -/
theorem eq_of_map_eq {α β γ δ : Type} {f : α → β} {g : α → γ} {h : α → δ}
    (hinj : ∀ a b, f a = f b → g a = g b → h a = h b → a = b) {as bs : List α}
    (hf : as.map f = bs.map f) (hg : as.map g = bs.map g) (hh : as.map h = bs.map h) :
    as = bs := by
  induction as generalizing bs with
  | nil => exact (List.map_eq_nil_iff.1 hf.symm).symm
  | cons a as ih =>
    cases bs with
    | nil => cases hf
    | cons b bs =>
      rw [List.map_cons, List.map_cons, List.cons.injEq] at hf hg hh
      rw [hinj a b hf.1 hg.1 hh.1, ih hf.2 hg.2 hh.2]

/-- A model is its views. -/
theorem ext_views {m m' : Model} (hnames : m.names = m'.names) (hcosts : m.costs = m'.costs)
    (hnonnegative : m.nonnegative = m'.nonnegative) (hmatrix : m.matrix = m'.matrix)
    (hrelations : m.relations = m'.relations) (hbounds : m.bounds = m'.bounds) : m = m' := by
  have hcolumns : m.columns = m'.columns := by
    refine eq_of_map_eq (fun c c' => ?_) hnames hcosts hnonnegative
    cases c
    cases c'
    rintro rfl rfl rfl
    rfl
  have hrows : m.rows = m'.rows := by
    refine eq_of_map_eq (fun r r' => ?_) hmatrix hrelations hbounds
    cases r
    cases r'
    rintro rfl rfl rfl
    rfl
  cases m
  cases m'
  cases hcolumns
  cases hrows
  rfl

structure FiniteNumbers (m : Model) : Prop where
  costs : ∀ x ∈ m.costs, x.isFinite = true
  bounds : ∀ x ∈ m.bounds, x.isFinite = true
  matrix : ∀ row ∈ m.matrix, ∀ x ∈ row, x.isFinite = true

/-- A model with finite numbers only is determined by its record. -/
theorem toJson_injective {m m' : Model} (h : m.FiniteNumbers) (h' : m'.FiniteNumbers)
    (heq : m.toJson = m'.toJson) : m = m' := by
  simp only [toJson, object.injEq, List.cons.injEq, Prod.mk.injEq, array.injEq, true_and,
    and_true] at heq
  obtain ⟨hnames, hmatrix, hbounds, hcosts, hrelations, hnonnegative⟩ := heq
  apply ext_views
  · exact List.map_injective_iff.2 (fun a b hab => string.inj hab) hnames
  · rw [← numbers_ofBinary64s h.costs, hcosts, numbers_ofBinary64s h'.costs]
  · refine List.map_injective_iff.2 (fun a b hab => ?_) hnonnegative
    cases a <;> cases b <;> first | rfl | cases hab
  · rw [← map_numbers_ofBinary64s h.matrix, hmatrix, map_numbers_ofBinary64s h'.matrix]
  · refine List.map_injective_iff.2 (fun a b hab => ?_) hrelations
    have hcode := congrArg Relation.ofCode? (integer.inj hab)
    rw [Relation.ofCode?_code, Relation.ofCode?_code] at hcode
    exact Option.some.inj hcode
  · rw [← numbers_ofBinary64s h.bounds, hbounds, numbers_ofBinary64s h'.bounds]

/-- **The record of a model loses nothing.** The texts of an assembled model, indented and compact,
    are JSON texts of one value, and that value is the record of the model. Models with finite
    numbers only and the same text are equal. -/
theorem json_lossless :
    (∀ p : Problem, ∃ record, read? p.assemble.json = some record ∧
        read? p.assemble.toJson.compact = some record ∧ p.assemble.IsRecord record) ∧
      ∀ m m' : Model, m.FiniteNumbers → m'.FiniteNumbers → m.json = m'.json → m = m' := by
  constructor
  · intro p
    exact ⟨p.assemble.toJson, read?_json _, read?_compact _,
      isRecord_toJson p.length_coefficients_assemble⟩
  · intro m m' h h' heq
    have hread := m.read?_json
    rw [heq, read?_json] at hread
    exact toJson_injective h h' (Option.some.inj hread).symm

end Model

end LinProg
