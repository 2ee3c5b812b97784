import LinProg.Proofs.Problem.Source
import LinProg.Proofs.Session.Compile

set_option autoImplicit false

/-! # Compiling a problem as input

A whole problem, written line by line the way a user types it in, compiles to its model. The
statements are read back one by one; what is left to see is that their lines come out of the text
as they went in, because no line holds other white space than spaces, and that none of them is
blank, so that the sections end where they were written to end. -/

namespace LinProg

open Text Numeral Grammar

/-! ## Written form -/

namespace Problem

/-- Whether the grammar has a text for a problem. The bounds may be any numbers. -/
structure Writable (p : Problem) : Prop where
  objective : p.objective.Writable
  restrictions : ∀ r ∈ p.restrictions, r.expression.Writable
  signRestrictions : ∀ s ∈ p.signRestrictions, isNameText s.name.toList = true

instance (p : Problem) : Decidable p.Writable :=
  decidable_of_iff (p.objective.Writable ∧ (∀ r ∈ p.restrictions, r.expression.Writable) ∧
    ∀ s ∈ p.signRestrictions, isNameText s.name.toList = true)
    ⟨fun h => ⟨h.1, h.2.1, h.2.2⟩, fun h => ⟨h.1, h.2, h.3⟩⟩

/-- The lines of a problem: the objective, the restrictions, a blank line, the sign restrictions
    and a blank line. -/
def sourceLines (gap : Nat) (p : Problem) : List (List Char) :=
  p.objective.objectiveSource :: (p.restrictions.map (Restriction.source gap) ++
    [] :: (p.signRestrictions.map SignRestriction.source ++ [[]]))

def source (gap : Nat) (p : Problem) : String :=
  .ofList (joinLines (p.sourceLines gap))

end Problem

/-! ## White space in lines -/

/-- Whether spaces are the only white space. -/
def IsPlain (line : List Char) : Prop :=
  ∀ c ∈ line, c = ' ' ∨ isWhiteSpace c = false

instance (line : List Char) : Decidable (IsPlain line) :=
  List.decidableBAll (fun c => c = ' ' ∨ isWhiteSpace c = false) line

theorem isPlain_append {a b : List Char} (ha : IsPlain a) (hb : IsPlain b) : IsPlain (a ++ b) := by
  intro c hc
  rcases List.mem_append.1 hc with hc | hc
  · exact ha c hc
  · exact hb c hc

theorem IsPlain.isLine {line : List Char} (h : IsPlain line) : IsLine line := by
  constructor
  · intro hmem
    exact absurd (h '\n' hmem) (by decide)
  · intro hlast
    exact absurd (h '\r' (List.mem_of_getLast? hlast)) (by decide)

theorem isPlain_blanks (n : Nat) : IsPlain (blanks n).chars := by
  intro c hc
  exact Or.inl (List.eq_of_mem_replicate hc)

theorem isPlain_chars (x : Binary64) : IsPlain x.chars := by
  intro c hc
  exact Or.inr (not_isWhiteSpace_of_mem_chars hc)

theorem isPlain_name {name : String} (h : isNameText name.toList = true) : IsPlain name.toList := by
  obtain ⟨n, hn⟩ := exists_name h
  rw [← hn]
  intro c hc
  refine Or.inr (not_isWhiteSpace_of_isAlphanum ?_)
  rcases List.mem_cons.1 hc with rfl | hmore
  · exact isAlphanum_of_isAlpha n.first_isAlpha
  · exact n.more_isAlphanum c hmore

theorem isPlain_linkSource {t : Term} (h : t.Writable) : IsPlain t.linkSource := by
  have hsign : IsPlain (' ' :: t.coefficient.sign.char :: [' ']) := by
    cases t.coefficient.sign <;> decide
  exact isPlain_append hsign (isPlain_append (isPlain_chars _) (isPlain_name h.name))

theorem isPlain_source {e : Expression} (h : e.Writable) : IsPlain e.source := by
  rw [Expression.Writable] at h
  rw [Expression.source]
  cases ht : e.terms with
  | nil => decide
  | cons t terms =>
    rw [ht] at h
    refine isPlain_append (isPlain_append (isPlain_chars _) (isPlain_name (h t (by simp)).name)) ?_
    intro c hc
    obtain ⟨u, hu, hmem⟩ := List.mem_flatMap.1 hc
    exact isPlain_linkSource (h u (List.mem_cons_of_mem _ hu)) c hmem

theorem isPlain_relation (r : Relation) : IsPlain r.source := by
  cases r <;> decide

theorem isPlain_objectiveSource {e : Expression} (h : e.Writable) : IsPlain e.objectiveSource :=
  isPlain_append (by decide) (isPlain_source h)

theorem isPlain_restrictionSource {r : Restriction} (h : r.expression.Writable) (gap : Nat) :
    IsPlain (r.source gap) := by
  have hright := isPlain_append (isPlain_blanks gap) (isPlain_chars r.bound)
  have hrelation := isPlain_append (isPlain_relation r.relation) hright
  exact isPlain_append (isPlain_source h) (isPlain_append (isPlain_blanks gap) hrelation)

theorem isPlain_signRestrictionSource {s : SignRestriction}
    (h : isNameText s.name.toList = true) : IsPlain s.source :=
  isPlain_append (isPlain_name h) (by decide)

/-- Every line of a problem comes out of the text as it went in. -/
theorem isLine_of_mem_sourceLines {p : Problem} (h : p.Writable) (gap : Nat) :
    ∀ line ∈ p.sourceLines gap, IsLine line := by
  have hblank : IsPlain [] := by
    decide
  intro line hline
  simp only [Problem.sourceLines, List.mem_cons, List.mem_append, List.mem_map, List.not_mem_nil,
    or_false] at hline
  rcases hline with rfl | ⟨r, hr, rfl⟩ | rfl | ⟨s, hs, rfl⟩ | rfl
  · exact (isPlain_objectiveSource h.objective).isLine
  · exact (isPlain_restrictionSource (h.restrictions r hr) gap).isLine
  · exact hblank.isLine
  · exact (isPlain_signRestrictionSource (h.signRestrictions s hs)).isLine
  · exact hblank.isLine

/-! ## Sections -/

/-- A line with a character that is not white space is not blank. -/
theorem isWritten_of_mem (c : Char) {line : List Char} (hc : c ∈ line)
    (h : isWhiteSpace c = false) : isWritten (.ofList line) = true := by
  rw [isWritten, String.toList_ofList, Bool.not_eq_true', ← Bool.not_eq_true, isBlank,
    List.all_eq_true]
  intro hall
  rw [hall c hc] at h
  cases h

theorem isWritten_restriction (r : Restriction) (gap : Nat) :
    isWritten (.ofList (r.source gap)) = true := by
  have hmem : '=' ∈ r.relation.source := by
    cases r.relation <;> decide
  exact isWritten_of_mem '=' (by simp [Restriction.source, hmem]) (by decide)

theorem isWritten_signRestriction (s : SignRestriction) :
    isWritten (.ofList s.source) = true :=
  isWritten_of_mem '=' (by simp [SignRestriction.source]) (by decide)

/-- A section ends at the blank line that is written after it. -/
theorem sectionLines_append {lines : List String} (h : ∀ line ∈ lines, isWritten line = true)
    (rest : List String) :
    sectionLines (lines ++ "" :: rest) = lines ∧ afterSection (lines ++ "" :: rest) = rest := by
  have hblank : isBlank "".toList = true := rfl
  induction lines with
  | nil => exact ⟨sectionLines_cons_blank rest hblank, afterSection_cons_blank rest hblank⟩
  | cons line lines ih =>
    have hline : ¬ isBlank line.toList = true := by
      simpa [isWritten] using h line (by simp)
    obtain ⟨hlines, hrest⟩ := ih fun l hl => h l (List.mem_cons_of_mem _ hl)
    rw [List.cons_append, sectionLines_cons_written _ hline, afterSection_cons_written _ hline,
      hlines, hrest]
    exact ⟨rfl, rfl⟩

/-! ## Whole problems -/

namespace Problem

variable {p : Problem}

theorem readAll_sourceLines (h : p.Writable) (gap : Nat) :
    Session.new.readAll ((p.sourceLines gap).map String.ofList) = .ok p.assemble := by
  generalize hrs : p.restrictions.map (fun r => String.ofList (r.source gap)) = rs
  generalize hss : p.signRestrictions.map (fun s => String.ofList s.source) = ss
  have hlines : (p.sourceLines gap).map String.ofList =
      .ofList p.objective.objectiveSource :: (rs ++ "" :: (ss ++ [""])) := by
    rw [← hrs, ← hss]
    simp [sourceLines, Function.comp_def]
  have hrs_written : ∀ line ∈ rs, isWritten line = true := by
    rw [← hrs, List.forall_mem_map]
    intro r _
    exact isWritten_restriction r gap
  have hss_written : ∀ line ∈ ss, isWritten line = true := by
    rw [← hss, List.forall_mem_map]
    intro s _
    exact isWritten_signRestriction s
  -- The first blank line ends the restrictions, the second one the sign restrictions.
  obtain ⟨hfirst, hafter⟩ := sectionLines_append hrs_written (ss ++ [""])
  have hsecond := (sectionLines_append hss_written []).1
  rw [hlines, Session.readAll_eq_ok_iff]
  refine Reading.accepted (parseObjective_source h.objective) ?_ ?_
  · rw [hfirst, ← hrs, List.forall₂_map_left_iff, List.forall₂_same]
    intro r hr
    exact parseRestriction_source (h.restrictions r hr) gap
  · rw [hafter, hsecond, ← hss, List.forall₂_map_left_iff, List.forall₂_same]
    intro s hs
    exact parseSignRestriction_source (h.signRestrictions s hs)

/-- **Compiling the text of a problem gives the model of the problem**, whatever the bounds are and
    with any number of spaces around the relational signs. -/
theorem compileText_source (h : p.Writable) (gap : Nat) :
    (compileText (p.source gap)).result = .ok p.assemble := by
  rw [source, result_compileText_joinLines (isLine_of_mem_sourceLines h gap),
    readAll_sourceLines h gap]

/-- A problem with a fraction, an expression without terms, and bounds of every kind. -/
def sample : Problem where
  objective := .ofTerms [⟨"x1", Decimal.toBinary64 .plus ⟨25, -1⟩⟩, ⟨"y", -.one⟩]
  restrictions := [⟨.ofTerms [⟨"y", -.one⟩], .atLeast, -0⟩, ⟨∅, .atMost, .infinite .minus⟩,
    ⟨.ofTerms [⟨"x1", .one⟩, ⟨"y", .one⟩], .equal, .nan⟩]
  signRestrictions := [⟨"y"⟩]

example : sample.source 1 =
    "min 2.5x1 - 1y\n-1y >= -0\n0x <= -inf\n1x1 + 1y = NaN\n\ny >= 0\n\n" := by
  decide +kernel

theorem compileText_source_sample :
    sample.Writable ∧ (compileText (sample.source 1)).result = .ok sample.assemble :=
  ⟨by decide +kernel, compileText_source (by decide +kernel) 1⟩

end Problem

end LinProg
