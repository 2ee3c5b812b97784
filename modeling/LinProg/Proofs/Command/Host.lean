import LinProg.Command.Host
import LinProg.Proofs.Command.Path

set_option autoImplicit false

/-! # What a system lets a command do

What is read at a path (`Surroundings.Opens`) and where a file can be made
(`Surroundings.CanCreate`) in a system that may fail at anything, said without the functions that
open and make files. -/

namespace LinProg.Command

namespace Surroundings

variable {w : Surroundings} {t : FileTree} {path : String}

/-- What is read at a path: the contents of a file, as far as reading does not fail, and nothing of
    a folder. -/
inductive Opens (w : Surroundings) (t : FileTree) (path : String) : Input → Prop
  | file {contents : List UInt8} (hopen : w.openFault? path = none)
      (hfile : t.Holds path contents) : Opens w t path (w.reading path contents)
  | folder (hopen : w.openFault? path = none) (hfolder : t.source path = .ok .folder) :
      Opens w t path ⟨[], some FileFault.isFolder.message⟩

theorem openFile_of_holds {contents : List UInt8} (hopen : w.openFault? path = none)
    (h : t.Holds path contents) : w.openFile t path = .ok (w.reading path contents) := by
  obtain ⟨hslash, place, hnames, hfolder, hfile⟩ := h
  have hsource : t.source path = .ok (.entry place) :=
    FileTree.source_eq_entry_iff.2 ⟨hslash, hnames, hfolder, by rw [hfile]; rfl⟩
  simp only [openFile, hsource, hopen, hfile, Option.getD_some]

theorem openFile_eq_ok_iff {input : Input} :
    w.openFile t path = .ok input ↔ w.Opens t path input := by
  constructor
  · intro h
    rw [openFile] at h
    split at h
    · cases h
    · cases h
    · next hsource hopen =>
      cases h
      exact .folder hopen hsource
    · next place hsource hopen =>
      cases h
      obtain ⟨hslash, hnames, hfolder, hfile⟩ := FileTree.source_eq_entry_iff.1 hsource
      obtain ⟨contents, hcontents⟩ := Option.isSome_iff_exists.1 hfile
      rw [hcontents, Option.getD_some]
      exact .file hopen ⟨hslash, place, hnames, hfolder, hcontents⟩
  · intro h
    cases h with
    | file hopen hfile => exact openFile_of_holds hopen hfile
    | folder hopen hfolder => simp only [openFile, hfolder, hopen]

/-- A file can be made at a path: there is a place for it, and the system does not refuse. -/
structure CanCreate (w : Surroundings) (t : FileTree) (path : String) (place : Place) : Prop where
  place : t.CanCreate path place
  noFault : w.createFault? path = none

theorem createFile_eq_ok_iff {place : Place} :
    w.createFile t path = .ok place ↔ w.CanCreate t path place := by
  constructor
  · intro h
    rw [createFile] at h
    split at h
    · cases h
    · cases h
    · next htarget hfault =>
      cases h
      exact ⟨FileTree.target_eq_ok_iff.1 htarget, hfault⟩
  · rintro ⟨hplace, hfault⟩
    simp only [createFile, FileTree.target_eq_ok_iff.2 hplace, hfault]

end Surroundings

theorem run_bind_of {α β : Type} {x : StateM FileTree α} {f : α → StateM FileTree β}
    {t t' : FileTree} {a : α} (h : x.run t = (a, t')) : (x >>= f).run t = (f a).run t' := by
  rw [StateT.run_bind, h]
  rfl

variable (w : Surroundings) (t : FileTree)

theorem run_openFile (path : String) :
    ((FileTree.host w).openFile path).run t = (w.openFile t path, t) := rfl

theorem run_createFile (path : String) :
    ((FileTree.host w).createFile path).run t =
      match w.createFile t path with
      | .error e => (.error e, t)
      | .ok place => (.ok place, t.put place []) := by
  refine (run_bind_of rfl).trans ?_
  cases w.createFile t path <;> rfl

theorem run_writeFile (place : Place) (text : String) :
    ((FileTree.host w).writeFile place text).run t =
      w.writeFile t place text.toByteArray.toList := rfl

end LinProg.Command
