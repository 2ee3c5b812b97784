import LinProg.Proofs.Decimal.Number
import LinProg.Proofs.Expression.Source
import LinProg.Statement.Reader

set_option autoImplicit false

/-! # Statements as input

The three kinds of line, written the way a user types them in, and read back. A bound is written in
its plain text, whichever number it is; around the relational sign of a restriction there may be any
number of spaces. -/

namespace LinProg

open Text Numeral Grammar

def Expression.objectiveSource (e : Expression) : List Char :=
  "min ".toList ++ e.source

def Relation.source : Relation → List Char
  | .atMost => ['<', '=']
  | .equal => ['=']
  | .atLeast => ['>', '=']

def Restriction.source (gap : Nat) (r : Restriction) : List Char :=
  r.expression.source ++ ((blanks gap).chars ++
    (r.relation.source ++ ((blanks gap).chars ++ r.bound.chars)))

def SignRestriction.source (s : SignRestriction) : List Char :=
  s.name.toList ++ ' ' :: ">= 0".toList

theorem parseObjective_source {e : Expression} (h : e.Writable) :
    parseObjective (.ofList e.objectiveSource) = .ok (e, []) := by
  have hskip : skipWhiteSpace e.objectiveSource = e.objectiveSource :=
    skipWhiteSpace_of_ends (ends_cons.2 (by decide))
  have hdirection : readDirection? e.objectiveSource = some (.minimize, ' ' :: e.source) := rfl
  have hread : readExpression (' ' :: e.source) = .ok (e, []) := by
    have := Expression.readExpression_source h 1 0 (by simp) ends_nil
    rwa [List.append_nil, show (blanks 0).chars = [] from rfl, List.append_nil] at this
  simp only [parseObjective, String.toList_ofList, readObjective, hskip, hdirection, hread]
  rfl

theorem readRelation?_source (r : Relation) (text : List Char) :
    readRelation? (r.source ++ text) = some (r, text) := by
  cases r <;> rfl

/-- A relational sign ends the expression before it. -/
theorem head?_source (r : Relation) (text : List Char) :
    ∃ c, (r.source ++ text).head? = some c ∧ stopsAt c = true ∧ c.isAlphanum = false := by
  cases r with
  | atMost => exact ⟨'<', rfl, by decide, by decide⟩
  | equal => exact ⟨'=', rfl, by decide, by decide⟩
  | atLeast => exact ⟨'>', rfl, by decide, by decide⟩

theorem parseRestriction_source {r : Restriction} (h : r.expression.Writable) (gap : Nat) :
    parseRestriction (.ofList (r.source gap)) = .ok r := by
  obtain ⟨c, hc, hstops, halnum⟩ := head?_source r.relation ((blanks gap).chars ++ r.bound.chars)
  have hread : readExpression (r.source gap) =
      .ok (r.expression, r.relation.source ++ ((blanks gap).chars ++ r.bound.chars)) := by
    refine Expression.readExpression_source h 0 gap ?_ ?_
    · intro d hd
      rw [hc, Option.mem_some_iff] at hd
      rwa [← hd]
    · intro d hd
      rw [hc, Option.mem_some_iff] at hd
      rwa [← hd]
  have hbound : number? (trim ((blanks gap).chars ++ r.bound.chars)) = some r.bound := by
    have hwhite : ∀ c ∈ r.bound.chars, isWhiteSpace c = false := by
      intro c hc
      exact not_isWhiteSpace_of_mem_chars hc
    have htrim := trim_spaces (blanks gap) (blanks 0) hwhite
    rw [show (blanks 0).chars = [] from rfl, List.append_nil] at htrim
    rw [htrim, number?_chars]
  simp only [parseRestriction, String.toList_ofList, readRestriction, hread, readRelation?_source,
    hbound]
  rfl

theorem parseSignRestriction_source {s : SignRestriction} (h : isNameText s.name.toList = true) :
    parseSignRestriction (.ofList s.source) = .ok s := by
  obtain ⟨n, hn⟩ := exists_name h
  have hname : String.ofList n.chars = s.name := by
    rw [hn, String.ofList_toList]
  have hskip : skipWhiteSpace s.source = s.source := by
    refine skipWhiteSpace_of_ends ?_
    rw [SignRestriction.source, ← hn]
    exact ends_cons.2 (not_isWhiteSpace_of_isAlphanum (isAlphanum_of_isAlpha n.first_isAlpha))
  have hread : readName? s.source = some (s.name, ' ' :: ">= 0".toList) := by
    rw [SignRestriction.source, ← hn, readName?_chars n (ends_cons.2 (by decide)), hname]
  have hrelation : readRelation? (skipWhiteSpace (' ' :: ">= 0".toList)) =
      some (.atLeast, " 0".toList) := by
    decide
  have hzero : trim " 0".toList = ['0'] := by
    decide
  simp only [parseSignRestriction, String.toList_ofList, readSignRestriction, hskip, hread,
    hrelation, hzero]
  rfl

end LinProg
