import ApiHeader.Command.Files
import ApiHeader.Proofs.Checks
import ApiHeader.Proofs.Hosts
import Mathlib.Tactic.SplitIfs

/-!
# Files as values are orderly

Each operation on a `FileSet` changes the file at one location, or, when a draft is
moved, at two. A draft is moved to where there is no directory, so no directory appears
or goes away, and every path leads where it did (`resolve_of_directories`). Therefore
`Session.host` is one of the hosts that `Host.Orderly` describes (`Session.orderly`).
-/

set_option autoImplicit false
set_option relaxedAutoImplicit false

namespace ApiHeader

namespace FileSet

variable {files after : FileSet} {place other target : Location} {path text : String}
  {bytes : ByteArray}

/-! ### Entries -/

theorem get?_remove (files : FileSet) (place other : Location) :
    (files.remove place).get? other = if other = place then none else files.get? other := by
  rw [get?, get?, remove, List.find?_filter]
  split_ifs with hother
  · subst hother
    simp
  · congr 2
    funext entry
    by_cases hentry : entry.1 = other
    · simp [hentry, hother]
    · simp [hentry]

theorem get?_put (files : FileSet) (place : Location) (file : File) (other : Location) :
    (files.put place file).get? other = if other = place then some file else files.get? other := by
  by_cases hother : other = place
  · simp [get?, put, hother]
  · have hremove := files.get?_remove place other
    rw [if_neg hother] at hremove
    rw [if_neg hother, ← hremove]
    simp [get?, put, Ne.symm hother]

theorem file?_remove (files : FileSet) (place other : Location) :
    (files.remove place).file? other = if other = place then none else files.file? other := by
  rw [file?, get?_remove]
  split_ifs <;> rfl

theorem file?_put (files : FileSet) (place : Location) (bytes : ByteArray) (other : Location) :
    (files.put place (.data bytes)).file? other =
      if other = place then some bytes else files.file? other := by
  rw [file?, get?_put]
  split_ifs <;> rfl

theorem get?_of_file? (h : files.file? place = some bytes) :
    files.get? place = some (.data bytes) := by
  rw [file?] at h
  split at h
  · rename_i hplace
    rw [hplace, Option.some.inj h]
  · cases h
  · cases h

/-! ### Paths -/

theorem enter_eq_ok_iff {name : String} : files.enter place name = .ok other ↔
    files.isDirectory place = true ∧ name.utf8ByteSize ≤ Path.maxNameSize ∧
      place.step name = other := by
  rw [enter]
  by_cases hdirectory : files.isDirectory place = true
  · rw [if_pos hdirectory]
    by_cases hsize : name.utf8ByteSize ≤ Path.maxNameSize
    · simp [hdirectory, hsize]
    · simp [hsize]
  · rw [if_neg hdirectory]
    cases files.get? place <;> simp [hdirectory]

/-- A path leads to the same end in files with the same directories. -/
theorem resolve_of_directories (hworking : after.working = files.working)
    (hsame : ∀ other, after.isDirectory other = files.isDirectory other)
    (path : String) (place : Location) :
    after.resolve path = .ok place ↔ files.resolve path = .ok place := by
  have hfold : ∀ (names : List String) (start : Location),
      names.foldlM after.enter start = .ok place ↔ names.foldlM files.enter start = .ok place := by
    intro names
    induction names with
    | nil => exact fun start ↦ Iff.rfl
    | cons name names ih =>
      intro start
      rw [List.foldlM_cons, List.foldlM_cons, bind_eq_ok_iff, bind_eq_ok_iff]
      simp only [enter_eq_ok_iff, hsame, ih]
  have hstart : after.start path = files.start path := by rw [start, start, hworking]
  rw [resolve, resolve, hstart]
  split_ifs
  · exact Iff.rfl
  · exact Iff.rfl
  · exact Iff.rfl
  · exact hfold _ _

/-! ### Operations -/

theorem toUTF8_of_fromUTF8? (h : String.fromUTF8? bytes = some text) : text.toUTF8 = bytes := by
  rw [String.fromUTF8?] at h
  split_ifs at h
  rw [← Option.some.inj h]
  rfl

theorem file?_of_read (h : files.read path = .ok text) :
    ∃ place, files.resolve path = .ok place ∧ files.file? place = some text.toUTF8 := by
  obtain ⟨place, hplace, h⟩ := bind_eq_ok_iff.mp h
  refine ⟨place, hplace, ?_⟩
  split_ifs at h
  split at h
  · cases h
  · rename_i bytes hbytes
    split at h
    · rename_i found hfound
      rw [hbytes, ← Except.ok.inj h, toUTF8_of_fromUTF8? hfound]
    · cases h

theorem get?_of_free {directory : String} {tags : List Nat}
    (h : files.free directory tags = .ok place) : files.get? place = none := by
  induction tags with
  | nil => cases h
  | cons tag tags ih =>
    obtain ⟨found, -, h⟩ := bind_eq_ok_iff.mp h
    split at h
    · rename_i hfound
      rwa [← Except.ok.inj h]
    · exact ih h

theorem create_eq_ok {directory : String} (h : files.create directory = .ok (place, after)) :
    files.get? place = none ∧ after = files.put place (.data .empty) := by
  obtain ⟨found, hfree, h⟩ := bind_eq_ok_iff.mp h
  obtain ⟨rfl, rfl⟩ := Prod.mk.inj (Except.ok.inj h)
  exact ⟨get?_of_free hfree, rfl⟩

theorem append_eq_ok (h : files.append place text = .ok ((), after)) :
    ∃ bytes, files.file? place = some bytes ∧
      after = files.put place (.data (bytes ++ text.toUTF8)) := by
  rw [append] at h
  split at h
  · rename_i bytes hbytes
    exact ⟨bytes, hbytes, (Prod.mk.inj (Except.ok.inj h)).2.symm⟩
  · cases h

theorem move_eq_ok (h : files.move place path = .ok ((), after)) :
    ∃ target bytes, files.resolve path = .ok target ∧ files.file? place = some bytes ∧
      files.isDirectory target = false ∧ after = (files.remove place).put target (.data bytes) := by
  obtain ⟨target, htarget, h⟩ := bind_eq_ok_iff.mp h
  split at h
  · rename_i bytes hbytes
    split_ifs at h with hrefused
    rw [Bool.or_eq_true, not_or, Bool.not_eq_true, Bool.not_eq_true] at hrefused
    exact ⟨target, bytes, htarget, hbytes, hrefused.2, (Prod.mk.inj (Except.ok.inj h)).2.symm⟩
  · cases h

/-- A file may go from one place to another without a change to the directories. -/
theorem isDirectory_moved (hfile : files.file? place = some bytes)
    (htarget : files.isDirectory target = false) (other : Location) :
    ((files.remove place).put target (.data bytes)).isDirectory other =
      files.isDirectory other := by
  rw [isDirectory, isDirectory, get?_put, get?_remove]
  split_ifs with hother hplace
  · subst hother
    rw [isDirectory] at htarget
    split at htarget
    · cases htarget
    · rfl
    · rfl
  · subst hplace
    rw [get?_of_file? hfile]
  · rfl

end FileSet

namespace Session

/-- Files are seen by their locations. -/
def view : View Session Location Location where
  file? session := session.files.file?
  find? session path := (session.files.resolve path).toOption
  read session := session.files.read
  printed := printed
  draft := id

section Attempts

variable {α : Type} {operation : FileSet → Except FileFailure (α × FileSet)} {session : Session}

theorem run_attempt_of_error {failure : FileFailure}
    (h : operation session.files = .error failure) :
    (attempt operation).run session = (.error failure, session) := by
  rw [attempt, Host.run_modifyGet, h]

theorem run_attempt_of_ok {a : α} {files : FileSet} (h : operation session.files = .ok (a, files)) :
    (attempt operation).run session = (.ok a, { session with files }) := by
  rw [attempt, Host.run_modifyGet, h]

end Attempts

theorem sets_remove (session : Session) (place : Location) :
    view.Sets session place none { session with files := session.files.remove place } where
  own := (FileSet.file?_remove ..).trans (if_pos rfl)
  others _ hother := (FileSet.file?_remove ..).trans (if_neg hother)
  printed := rfl

theorem sets_put (session : Session) (place : Location) (bytes : ByteArray) :
    view.Sets session place (some bytes)
      { session with files := session.files.put place (.data bytes) } where
  own := (FileSet.file?_put ..).trans (if_pos rfl)
  others _ hother := (FileSet.file?_put ..).trans (if_neg hother)
  printed := rfl

theorem creates (directory : String) (session : Session) :
    view.Creates session ((host.create directory).run session) := by
  change view.Creates session ((attempt (·.create directory)).run session)
  cases hcreate : session.files.create directory with
  | error failure =>
    rw [run_attempt_of_error hcreate]
    exact ⟨rfl, rfl⟩
  | ok created =>
    obtain ⟨place, files⟩ := created
    obtain ⟨hnew, rfl⟩ := FileSet.create_eq_ok hcreate
    rw [run_attempt_of_ok hcreate]
    refine ⟨?_, session.sets_put place .empty⟩
    change session.files.file? place = none
    rw [FileSet.file?, hnew]

theorem appends (place : Location) (text : String) (session : Session) :
    view.Appends place text session ((host.append place text).run session) := by
  change view.Appends place text session ((attempt (·.append place text)).run session)
  cases happend : session.files.append place text with
  | error failure =>
    rw [run_attempt_of_error happend]
    exact ⟨view.file? session place, rfl, fun _ _ ↦ rfl, rfl⟩
  | ok appended =>
    obtain ⟨⟨⟩, files⟩ := appended
    obtain ⟨bytes, hbytes, rfl⟩ := FileSet.append_eq_ok happend
    rw [run_attempt_of_ok happend]
    intro old hold
    obtain rfl : bytes = old := Option.some.inj (hbytes.symm.trans hold)
    exact session.sets_put place _

theorem moves (place : Location) (path : String) (session : Session) :
    view.Moves place path session ((host.move place path).run session) := by
  change view.Moves place path session ((attempt (·.move place path)).run session)
  cases hmove : session.files.move place path with
  | error failure =>
    rw [run_attempt_of_error hmove]
    exact ⟨rfl, rfl⟩
  | ok moved =>
    obtain ⟨⟨⟩, files⟩ := moved
    obtain ⟨target, bytes, htarget, hbytes, hfile, rfl⟩ := FileSet.move_eq_ok hmove
    rw [run_attempt_of_ok hmove]
    -- The place of the draft is emptied first, and the target is put then.
    have hremoved := session.sets_remove place
    have hput := sets_put { session with files := session.files.remove place } target bytes
    refine ⟨target, ?_, hput.own.trans hbytes.symm,
      fun hplace ↦ (hput.others place hplace).trans hremoved.own,
      fun other hother hplace ↦ (hput.others other hother).trans (hremoved.others other hplace),
      rfl⟩
    have hworking : ((session.files.remove place).put target (.data bytes)).working =
        session.files.working := rfl
    have hresolve := (FileSet.resolve_of_directories hworking
      (FileSet.isDirectory_moved hbytes hfile) path target).mpr htarget
    change (FileSet.resolve _ path).toOption = some target
    rw [hresolve]
    rfl

theorem holds_of_read (path text : String) (session : Session)
    (h : view.read session path = .ok text) : view.Holds session path text.toUTF8 := by
  obtain ⟨place, hplace, hfile⟩ := FileSet.file?_of_read h
  refine ⟨place, ?_, hfile⟩
  change (session.files.resolve path).toOption = some place
  rw [hplace]
  rfl

theorem orderly : host.Orderly view where
  report _ _ := ⟨⟨rfl, rfl⟩, rfl, rfl⟩
  read _ session := .refl view session
  reads _ _ := rfl
  holds := holds_of_read
  create := creates
  append := appends
  move := moves
  discard place session := session.sets_remove place
  prints _ _ := rfl
  print _ _ := ⟨rfl, rfl⟩

end Session

end ApiHeader
