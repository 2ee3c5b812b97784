import LinProg.Proofs.Expression.WellFormed
import LinProg.Proofs.Session.Problem
import LinProg.Proofs.Statement.Objective
import LinProg.Proofs.Statement.Restriction

set_option autoImplicit false

/-! # Well-formed sessions

The expressions that a session holds were read from its lines, the objective from the first one. So
what is known of expressions that are read is known of those that are held: they have no zeros, and
their variables are identifiers of the line (`wellFormedIn_of_feedAll`). -/

namespace LinProg

open Text Grammar

namespace Expression.WellFormedIn

variable {e : Expression} {text : List Char}

theorem append_left (h : e.WellFormedIn text) (hends : Ends Char.isAlphanum text)
    (first : List Char) : e.WellFormedIn (first ++ text) := by
  refine ⟨h.zeroFree, ?_⟩
  intro name hname
  obtain ⟨n, hn, hchars⟩ := h.names name hname
  exact ⟨n, hn.append_left hends first, hchars⟩

theorem toMinimize (h : e.WellFormedIn text) (d : Direction) :
    (d.toMinimize e).WellFormedIn text := by
  refine ⟨d.zeroFree_toMinimize h.zeroFree, ?_⟩
  cases d with
  | maximize =>
    intro name hname
    exact h.names name (e.opposite_negate.names ▸ hname)
  | minimize => exact h.names

end Expression.WellFormedIn

theorem wellFormedIn_of_parseObjective {line : String} {e : Expression} {dropped : List Char}
    (h : parseObjective line = .ok (e, dropped)) : e.WellFormedIn line.toList := by
  have hreading := objectiveReading_parseObjective line
  rw [h] at hreading
  cases hreading with
  | @accepted d pos body e last _ hdirection hbody hexpression hlast =>
    obtain ⟨leading, hline, -⟩ := hdirection.keyword
    have hwell := wellFormedIn_of_expressionAt hexpression
    rw [textFrom_of_startsAt hdirection.startsAt] at hwell
    -- The white space after the keyword keeps it apart from the identifiers.
    have hends : Ends Char.isAlphanum body := by
      intro c hc
      exact not_isAlphanum_of_isWhiteSpace (hdirection.follows c hc)
    rw [hline, ← List.append_assoc]
    exact (hwell.append_left hends _).toMinimize d

theorem wellFormedIn_of_parseRestriction {line : String} {r : Restriction}
    (h : parseRestriction line = .ok r) : r.expression.WellFormedIn line.toList := by
  have hreading := restrictionReading_parseRestriction line
  rw [h] at hreading
  cases hreading with
  | accepted hbound hright hdenotes =>
    obtain ⟨last, hexpression, -⟩ := hbound.expression
    exact textFrom_zero line ▸ wellFormedIn_of_expressionAt hexpression

namespace Session

/-- Whether the expressions that a session holds are well-formed in the lines that it was given. -/
structure WellFormedIn (s : Session) (lines : List String) : Prop where
  objective : ∀ e, s.objective? = some e →
    ∃ line, lines.head? = some line ∧ e.WellFormedIn line.toList
  restrictions : ∀ r ∈ s.restrictions, ∃ line ∈ lines, r.expression.WellFormedIn line.toList

theorem wellFormedIn_of_feedAll {s : Session} {lines : List String}
    (h : new.feedAll lines = .ok s) : s.WellFormedIn lines := by
  constructor
  · intro e he
    obtain ⟨line, dropped, hline, hparse⟩ := exists_parseObjective_of_feedAll h he
    exact ⟨line, hline, wellFormedIn_of_parseObjective hparse⟩
  · intro r hr
    rcases exists_parseRestriction_of_feedAll h hr with hold | ⟨line, hline, hparse⟩
    · cases hold
    · exact ⟨line, hline, wellFormedIn_of_parseRestriction hparse⟩

end Session

/-- **Expressions have no zeros and only variables that were written.** No expression that adding
    terms and negating can make has a coefficient that compares equal to zero. The same holds of
    every expression that is read, at any position of a line, as an objective in either direction or
    in a restriction, and its variables are identifiers of the text. All other numbers are
    coefficients of some expression that is read. The objective of a session is well-formed in the
    session's first line and every restriction in one of its lines. -/
theorem expressions_wellFormed :
    (∀ e : Expression, e.Reachable → e.ZeroFree) ∧
    (∀ (line : String) (pos : Nat), ∃ text, IsTextAt line pos text ∧
      ∀ e last, expressionAt line pos = .ok (e, last) → e.WellFormedIn text) ∧
    (∀ c : Binary64, (∃ line pos e last name,
      expressionAt line pos = .ok (e, last) ∧ e.coeff? name = some c) ↔ c ≠ 0 ∧ c ≠ -0) ∧
    (∀ (line : String) (e : Expression) (dropped : List Char),
      parseObjective line = .ok (e, dropped) → e.WellFormedIn line.toList) ∧
    (∀ (line : String) (r : Restriction),
      parseRestriction line = .ok r → r.expression.WellFormedIn line.toList) ∧
    ∀ (lines : List String) (s : Session), Session.new.feedAll lines = .ok s →
      s.WellFormedIn lines := by
  refine ⟨?_, ?_, ?_, ?_, ?_, ?_⟩
  · intro e h
    exact h.zeroFree
  · intro line pos
    refine ⟨textFrom line pos, isTextAt_textFrom line pos, ?_⟩
    intro e last h
    exact wellFormedIn_of_expressionAt h
  · intro c
    exact exists_expressionAt_coeff?_iff
  · intro line e dropped h
    exact wellFormedIn_of_parseObjective h
  · intro line r h
    exact wellFormedIn_of_parseRestriction h
  · intro lines s h
    exact Session.wellFormedIn_of_feedAll h

end LinProg
