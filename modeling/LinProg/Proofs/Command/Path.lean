import Mathlib.Data.List.Basic
import LinProg.Command.FileTree

set_option autoImplicit false

/-! # Where paths lead

What a path means in a file tree, said without resolving it. Names lead from folder to folder
(`Leads`), a path names an entry of the folder that all its names but the last one lead to
(`Names`), and from this follows which file a path is (`Holds`) and where a file can be made
(`CanCreate`). Files are opened for reading and for writing in exactly these cases
(`source_eq_entry_iff`, `target_eq_ok_iff`). -/

namespace LinProg.Command.FileTree

variable {t : FileTree}

/-! ## Folders -/

/-- A name leads from a folder to a folder. Two names have a meaning of their own. -/
inductive Enters (t : FileTree) : Place → String → Place → Prop
  | stay {folder : Place} : Enters t folder "." folder
  | up {folder : Place} : Enters t folder ".." folder.dropLast
  | down {folder : Place} {name : String} (hstay : name ≠ ".") (hup : name ≠ "..")
      (hfolder : t.isFolder (folder ++ [name]) = true) : Enters t folder name (folder ++ [name])

/-- Names lead from a folder to a folder, one after the other. -/
inductive Leads (t : FileTree) : Place → List String → Place → Prop
  | nil {folder : Place} : Leads t folder [] folder
  | cons {folder next last : Place} {name : String} {names : List String}
      (h : t.Enters folder name next) (hrest : t.Leads next names last) :
      Leads t folder (name :: names) last

theorem enter_eq_ok_iff {folder next : Place} {name : String} :
    t.enter folder name = .ok next ↔ t.Enters folder name next := by
  constructor
  · intro h
    rw [enter] at h
    split at h
    · next hstay =>
      cases h
      exact hstay ▸ .stay
    · next hstay =>
      split at h
      · next hup =>
        cases h
        exact hup ▸ .up
      · next hup =>
        split at h
        · next hfolder =>
          cases h
          exact .down hstay hup hfolder
        · split at h <;> cases h
  · intro h
    cases h with
    | stay => rfl
    | up => simp [enter]
    | down hstay hup hfolder => simp [enter, hstay, hup, hfolder]

theorem walk_eq_ok_iff {folder last : Place} {names : List String} :
    t.walk folder names = .ok last ↔ t.Leads folder names last := by
  induction names generalizing folder with
  | nil =>
    constructor
    · intro h
      cases h
      exact .nil
    · intro h
      cases h
      rfl
  | cons name names ih =>
    have hstep : t.walk folder (name :: names) =
        (t.enter folder name).bind fun next => t.walk next names := by
      rw [walk, List.foldlM_cons]
      rfl
    rw [hstep]
    constructor
    · intro h
      cases henter : t.enter folder name with
      | error e => simp [henter, Except.bind] at h
      | ok next =>
        rw [henter] at h
        exact .cons (enter_eq_ok_iff.1 henter) (ih.1 h)
    · intro h
      cases h with
      | cons henter hrest =>
        rw [enter_eq_ok_iff.2 henter]
        exact ih.2 hrest

/-! ## Entries -/

/-- A path names an entry of a folder, whether or not there is one: its last name is the name of the
    entry, and the names before it lead from the path's start to the folder. -/
inductive Names (t : FileTree) (path : String) : Place → Prop
  | entry {names : List String} {name : String} {folder : Place}
      (hpath : pathNames path = names ++ [name]) (hstay : name ≠ ".") (hup : name ≠ "..")
      (hleads : t.Leads (t.start path) names folder) : Names t path (folder ++ [name])

theorem resolve_eq_entry_iff {path : String} {place : Place} :
    t.resolve path = .ok (.entry place) ↔ t.Names path place := by
  constructor
  · intro h
    rw [resolve] at h
    split at h
    · split at h <;> cases h
    · next name hlast =>
      split at h
      · cases h
      · next folder hwalk =>
        split at h
        · cases h
        · next hname =>
          cases h
          rw [not_or] at hname
          exact .entry (List.dropLast_append_getLast? name hlast).symm hname.1 hname.2
            (walk_eq_ok_iff.1 hwalk)
  · rintro ⟨hnames, hstay, hup, hleads⟩
    simp only [resolve, hnames, List.getLast?_concat, List.dropLast_concat,
      walk_eq_ok_iff.2 hleads, hstay, hup, or_self, if_false]

/-- A path is a file with some contents. A file has no slash at the end of its path. -/
structure Holds (t : FileTree) (path : String) (contents : List UInt8) : Prop where
  noSlash : endsInSlash path = false
  file : ∃ place, t.Names path place ∧ t.isFolder place = false ∧ t.file? place = some contents

/-- A file can be made at a path: the path names a place in a folder that is there, and the place is
    no folder. -/
structure CanCreate (t : FileTree) (path : String) (place : Place) : Prop where
  noSlash : endsInSlash path = false
  names : t.Names path place
  notFolder : t.isFolder place = false

theorem source_eq_entry_iff {path : String} {place : Place} :
    t.source path = .ok (.entry place) ↔
      endsInSlash path = false ∧ t.Names path place ∧ t.isFolder place = false ∧
        (t.file? place).isSome = true := by
  constructor
  · intro h
    rw [source] at h
    split at h
    · cases h
    · cases h
    · next place' hresolve =>
      split at h
      · cases h
      · next hfolder =>
        split at h
        · cases h
        · next hfile =>
          split at h
          · cases h
          · next hslash =>
            cases h
            exact ⟨Bool.eq_false_iff.2 hslash, resolve_eq_entry_iff.1 hresolve,
              Bool.eq_false_iff.2 hfolder, Option.isSome_iff_ne_none.2 (by simpa using hfile)⟩
  · rintro ⟨hslash, hnames, hfolder, hfile⟩
    simp [source, resolve_eq_entry_iff.2 hnames, hfolder, hslash, Option.isSome_iff_ne_none.1 hfile]

theorem target_eq_ok_iff {path : String} {place : Place} :
    t.target path = .ok place ↔ t.CanCreate path place := by
  constructor
  · intro h
    rw [target] at h
    split at h
    · cases h
    · cases h
    · next hresolve =>
      split at h
      · cases h
      · next hplain =>
        cases h
        rw [not_or] at hplain
        exact ⟨Bool.eq_false_iff.2 hplain.2, resolve_eq_entry_iff.1 hresolve,
          Bool.eq_false_iff.2 hplain.1⟩
  · rintro ⟨hslash, hnames, hfolder⟩
    simp [target, resolve_eq_entry_iff.2 hnames, hfolder, hslash]

/-! ## Trees with the same folders -/

section Folders

variable {t' : FileTree} (h : t'.folders = t.folders)

include h

theorem isFolder_congr (place : Place) : t'.isFolder place = t.isFolder place := by
  rw [isFolder, isFolder, h]

theorem Enters.congr {folder next : Place} {name : String} (henters : t.Enters folder name next) :
    t'.Enters folder name next := by
  cases henters with
  | stay => exact .stay
  | up => exact .up
  | down hstay hup hfolder => exact .down hstay hup ((isFolder_congr h _).trans hfolder)

theorem Leads.congr {folder last : Place} {names : List String}
    (hleads : t.Leads folder names last) : t'.Leads folder names last := by
  induction hleads with
  | nil => exact .nil
  | cons henters _ ih => exact .cons (henters.congr h) ih

/-- What a path names depends on the folders only. -/
theorem Names.congr (hworking : t'.workingFolder = t.workingFolder) {path : String} {place : Place}
    (hnames : t.Names path place) : t'.Names path place := by
  have hstart : t'.start path = t.start path := by rw [start, start, hworking]
  cases hnames with
  | entry hpath hstay hup hleads => exact .entry hpath hstay hup (hstart ▸ hleads.congr h)

end Folders

/-! ## Replaced files -/

/-- A tree differs from another one in the contents of one file, which may be new. -/
structure Replaces (t : FileTree) (place : Place) (contents : List UInt8) (t' : FileTree) :
    Prop where
  file : t'.file? place = some contents
  others : ∀ other, other ≠ place → t'.file? other = t.file? other
  folders : t'.folders = t.folders
  workingFolder : t'.workingFolder = t.workingFolder

theorem replaces_put (t : FileTree) (place : Place) (contents : List UInt8) :
    t.Replaces place contents (t.put place contents) where
  file := file?_put_self t place contents
  others := fun _ hne => file?_put_of_ne t hne contents
  folders := rfl
  workingFolder := rfl

/-- What is written to a file that was just made is all that it holds. -/
theorem Replaces.append {t' : FileTree} {place : Place} (h : t.Replaces place [] t')
    (bytes : List UInt8) : t.Replaces place bytes (t'.append place bytes) where
  file := by rw [FileTree.append, file?_put_self, h.file, Option.getD_some, List.nil_append]
  others := fun other hne => (file?_put_of_ne t' hne _).trans (h.others other hne)
  folders := h.folders
  workingFolder := h.workingFolder

end LinProg.Command.FileTree
