import LinProg.Proofs.Statement.Trailing

set_option autoImplicit false

/-! # White space around statements

White space at either end of a line changes neither what is read of the line nor what is wrong with
it, only where. At its start all readers skip it, and at its end they leave it over or skip it. -/

namespace LinProg

open Text Numeral Grammar

/-! ## White space after statements -/

section Statements

variable {text text' : List Char} (h : Trails text text')

include h

theorem readObjective_trails :
    ((readObjective text').map Prod.fst).mapError Failure.fault =
      ((readObjective text).map Prod.fst).mapError Failure.fault := by
  have hdirection := sameStart_readDirection? h.skipWhiteSpace
  rw [readObjective, readObjective]
  cases hd : readDirection? (skipWhiteSpace text) with
  | none =>
    rw [hd] at hdirection
    rw [hdirection.eq_none]
    rfl
  | some r =>
    obtain ⟨body', hd', hbody⟩ := (hd ▸ hdirection).exists_found
    rw [hd']
    have hexpression := sameReading_readExpression hbody
    cases he : readExpression r.2 with
    | error unread =>
      obtain ⟨unread', he'⟩ := (he ▸ hexpression).exists_failed
      simp only [he, he']
      rfl
    | ok r' =>
      obtain ⟨rest', he', -⟩ := (he ▸ hexpression).exists_read
      simp only [he, he']
      rfl

theorem readRestriction_trails :
    (readRestriction text').mapError Failure.fault =
      (readRestriction text).mapError Failure.fault := by
  have hexpression := sameReading_readExpression h
  rw [readRestriction, readRestriction]
  cases he : readExpression text with
  | error unread =>
    obtain ⟨unread', he'⟩ := (he ▸ hexpression).exists_failed
    rw [he']
    rfl
  | ok r =>
    obtain ⟨rest', he', hrest⟩ := (he ▸ hexpression).exists_read
    have hrelation := sameStart_readRelation? hrest
    simp only [he']
    cases hr : readRelation? r.2 with
    | none =>
      rw [hr] at hrelation
      rw [hrelation.eq_none]
      rfl
    | some r' =>
      obtain ⟨right', hr', hright⟩ := (hr ▸ hrelation).exists_found
      simp only [hr', hright.trim_eq]
      cases number? (trim r'.2) <;> rfl

theorem readSignRestriction_trails :
    (readSignRestriction text').mapError Failure.fault =
      (readSignRestriction text).mapError Failure.fault := by
  have hname := sameStart_readName? h.skipWhiteSpace
  rw [readSignRestriction, readSignRestriction]
  cases hn : readName? (skipWhiteSpace text) with
  | none =>
    rw [hn] at hname
    rw [hname.eq_none]
    rfl
  | some r =>
    obtain ⟨rest', hn', hrest⟩ := (hn ▸ hname).exists_found
    have hrelation := sameStart_readRelation? hrest.skipWhiteSpace
    simp only [hn']
    cases hr : readRelation? (skipWhiteSpace r.2) with
    | none =>
      rw [hr] at hrelation
      rw [hrelation.eq_none]
      rfl
    | some r' =>
      obtain ⟨right', hr', hright⟩ := (hr ▸ hrelation).exists_found
      simp only [hr', hright.trim_eq]
      split <;> rfl

end Statements

/-! ## White space before statements -/

section Before

variable (before : Space) (text : List Char)

theorem skipWhiteSpace_append :
    skipWhiteSpace (before.chars ++ text) = skipWhiteSpace text :=
  List.dropWhile_append_of_pos before.all_white

theorem readObjective_append : readObjective (before.chars ++ text) = readObjective text := by
  rw [readObjective, readObjective, skipWhiteSpace_append]

theorem readRestriction_append :
    readRestriction (before.chars ++ text) = readRestriction text := by
  rw [readRestriction, readRestriction, readExpression, readExpression, readTerms, readTerms,
    skipWhiteSpace_append]

theorem readSignRestriction_append :
    readSignRestriction (before.chars ++ text) = readSignRestriction text := by
  rw [readSignRestriction, readSignRestriction, skipWhiteSpace_append]

end Before

/-! ## Lines -/

/-- Whether a line is another one with white space before and after it. -/
def Padded (line line' : String) : Prop :=
  ∃ before after : Space, line'.toList = before.chars ++ (line.toList ++ after.chars)

/-- The fault is the same wherever it is. -/
theorem mapError_fault_locate {α : Type} (line : String) (r : Except Failure α) :
    (r.mapError (·.locate line)).mapError ParseError.fault = r.mapError Failure.fault := by
  cases r <;> rfl

section Lines

variable {line line' : String} (h : Padded line line')

include h

theorem isBlank_padded : isBlank line'.toList = isBlank line.toList := by
  obtain ⟨before, after, hline⟩ := h
  rw [hline, isBlank, isBlank, List.all_append, List.all_append,
    List.all_eq_true.2 before.all_white, List.all_eq_true.2 after.all_white, Bool.true_and,
    Bool.and_true]

/-- The text after the objective may end with more white space. -/
theorem parseObjective_padded :
    ((parseObjective line').map Prod.fst).mapError ParseError.fault =
      ((parseObjective line).map Prod.fst).mapError ParseError.fault := by
  obtain ⟨before, after, hline⟩ := h
  have hmap : ∀ line, (parseObjective line).map Prod.fst =
      ((readObjective line.toList).map Prod.fst).mapError (·.locate line) := by
    intro line
    rw [parseObjective]
    cases readObjective line.toList <;> rfl
  rw [hmap, hmap, mapError_fault_locate, mapError_fault_locate, hline, readObjective_append]
  exact readObjective_trails ⟨after, rfl⟩

theorem parseRestriction_padded :
    (parseRestriction line').mapError ParseError.fault =
      (parseRestriction line).mapError ParseError.fault := by
  obtain ⟨before, after, hline⟩ := h
  rw [parseRestriction, parseRestriction, mapError_fault_locate, mapError_fault_locate, hline,
    readRestriction_append]
  exact readRestriction_trails ⟨after, rfl⟩

theorem parseSignRestriction_padded :
    (parseSignRestriction line').mapError ParseError.fault =
      (parseSignRestriction line).mapError ParseError.fault := by
  obtain ⟨before, after, hline⟩ := h
  rw [parseSignRestriction, parseSignRestriction, mapError_fault_locate, mapError_fault_locate,
    hline, readSignRestriction_append]
  exact readSignRestriction_trails ⟨after, rfl⟩

end Lines

end LinProg
