import LinProg.Proofs.Session.Listener

set_option autoImplicit false

/-! # Inputs that break off

An input can have a fault, behind which nothing can be read, and the line that it cuts off is lost.
A compilation that comes to the fault fails with it. One that does not come to it was decided by
the lines before, so that it is the same whatever is there instead of the fault
(`compileWith_of_fault`). -/

namespace LinProg

open Text

/-- The pieces that end in a line feed stay when more bytes come. -/
theorem exists_cutLines_append (bytes more : List UInt8) :
    ∃ rest, cutLines (bytes ++ more) =
      (cutLines bytes).takeWhile (·.getLast? = some lineFeed) ++ rest := by
  induction bytes with
  | nil => exact ⟨cutLines more, rfl⟩
  | cons b bytes ih =>
    obtain ⟨rest, hrest⟩ := ih
    rw [List.cons_append, cutLines, cutLines]
    by_cases hb : b = lineFeed
    · rw [if_pos hb, if_pos hb, hrest]
      exact ⟨rest, by simp [hb]⟩
    · rw [if_neg hb, if_neg hb]
      cases hpieces : cutLines bytes with
      | nil =>
        rw [List.takeWhile_cons_of_neg (by simp [hb])]
        exact ⟨_, (List.nil_append _).symm⟩
      | cons piece pieces =>
        by_cases hpiece : piece.getLast? = some lineFeed
        · rw [hpieces, List.takeWhile_cons_of_pos (by simp [hpiece])] at hrest
          rw [hrest]
          exact ⟨rest, by simp [hpiece, List.getLast?_cons]⟩
        · -- The last line is not complete, and there is no line after it.
          have hlast : (b :: piece).getLast? ≠ some lineFeed := by
            cases piece with
            | nil => simpa using hb
            | cons c piece => simpa [List.getLast?_cons_cons] using hpiece
          rw [List.takeWhile_cons_of_neg (by simp [hlast])]
          exact ⟨_, (List.nil_append _).symm⟩

namespace Session

/-- A run comes to the fault behind the pieces, or what is behind them does not matter. -/
theorem run_of_fault (listener : Listener) (s : Session) (told : List Phase)
    (pieces : List (List UInt8)) (reason : String) :
    (s.run listener told pieces (some reason)).result = .error (.unreadable reason) ∨
      ∀ more fault?, s.run listener told (pieces ++ more) fault? =
        s.run listener told pieces (some reason) := by
  generalize hreason : some reason = fault?
  fun_induction run listener told s pieces fault? with
  | case1 pieces told s hphase => exact .inr fun more _ => run_of_phase hphase listener told _
  | case2 pieces told s hphase refusal hrefuses =>
    exact .inr fun more _ => run_of_refusal hphase hrefuses _
  | case3 told s hphase haccepts reason' hfault =>
    subst hfault
    cases hreason
    exact .inl rfl
  | case4 told s hphase haccepts hfault =>
    subst hfault
    cases hreason
  | case5 told s hphase haccepts piece pieces hline =>
    exact .inr fun more _ => run_of_undecodable hphase haccepts _ hline
  | case6 told s hphase haccepts piece pieces line hline e hstep =>
    exact .inr fun more _ => run_of_rejected hphase haccepts _ hline hstep
  | case7 told s hphase haccepts piece pieces line hline s' messages hstep ih =>
    refine ih.imp_right fun hsame more _ => ?_
    rw [List.cons_append, run_of_taken hphase haccepts _ hline hstep, hsame]

end Session

/-- **A fault of the input is the result, or it comes too late to matter.** In the second case the
    compilation is that of any bytes that go on from those before the fault. -/
theorem compileWith_of_fault (listener : Listener) (bytes : List UInt8) (reason : String) :
    (compileWith listener ⟨bytes, some reason⟩).result = .error (.unreadable reason) ∨
      ∀ more : List UInt8,
        compileWith listener (bytes ++ more) = compileWith listener ⟨bytes, some reason⟩ := by
  refine (Session.run_of_fault listener Session.new [] _ reason).imp_right fun hsame more => ?_
  obtain ⟨rest, hrest⟩ := exists_cutLines_append bytes more
  rw [compileWith_ofBytes, hrest]
  exact hsame rest none

end LinProg
