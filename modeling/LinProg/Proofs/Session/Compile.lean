import Mathlib.Data.List.Forall2
import LinProg.Proofs.Session.Sections
import LinProg.Proofs.Text.Lines
import LinProg.Session.Compile

set_option autoImplicit false

/-! # Compiling a text line by line

A run that nobody interrupts ends as the session does that takes all lines of the stream, although
it stops looking at the stream once the model is assembled (`result_run`). So a text that is written
line by line compiles to what its lines are read as (`result_compileText_joinLines`). -/

namespace LinProg

open Text

namespace Session

theorem result_conclude (s : Session) (told : List Phase) :
    (s.conclude told).result = s.finish := by
  simp only [conclude, finish]
  cases s.close with
  | error e => rfl
  | ok done => rfl

theorem result_after (messages : List Message) (r : Run) : (r.after messages).result = r.result :=
  rfl

/-- A run ends as the session that takes all lines. -/
theorem result_run {pieces : List (List UInt8)} {lines : List String}
    (h : List.Forall₂ (fun piece line => decodeLine? piece = some line) pieces lines) (s : Session)
    (told : List Phase) : (s.run .silent told pieces).result = s.readAll lines := by
  induction h generalizing s told with
  | nil =>
    rw [run]
    by_cases hphase : s.phase = .assembled
    · rw [if_pos hphase, result_conclude, readAll_nil]
    · rw [if_neg hphase]
      exact result_conclude s _
  | @cons piece line pieces lines hline hlines ih =>
    rw [run]
    by_cases hphase : s.phase = .assembled
    · -- The run stops here, and the session ignores the lines.
      rw [if_pos hphase, result_conclude, readAll_of_assembled hphase]
    · rw [if_neg hphase, readAll_cons, feed]
      simp only [Listener.silent, hline]
      cases s.step line with
      | error e => rfl
      | ok r => exact (result_after _ _).trans (ih r.1 _)

end Session

/-- Bytes that have no fault are cut into their lines. -/
theorem compileWith_ofBytes (listener : Listener) (bytes : List UInt8) :
    compileWith listener bytes = Session.new.run listener [] (cutLines bytes) := rfl

/-- A text of lines compiles to what the lines are read as. -/
theorem result_compileText_joinLines {lines : List (List Char)} (h : ∀ line ∈ lines, IsLine line) :
    (compileText (String.ofList (joinLines lines))).result =
      Session.new.readAll (lines.map String.ofList) := by
  rw [compileText, compile, compileWith_ofBytes, toList_toByteArray, String.toList_ofList,
    cutLines_encode_joinLines h]
  refine Session.result_run ?_ _ _
  rw [List.forall₂_map_left_iff, List.forall₂_map_right_iff, List.forall₂_same]
  intro line hline
  exact decodeLine?_encode (h line hline).no_carriageReturn

end LinProg
