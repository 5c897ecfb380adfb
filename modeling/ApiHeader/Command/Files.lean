import ApiHeader.Command.Run

/-!
# Files as values

A `FileSet` holds what stands at some locations, and the working directory from which
relative paths start. `FileSet.resolve` follows a path name by name: every name but the
last has to lead to a directory, also when the next one is `..`. `Session.host` carries
requests out on such files, and keeps what is printed and reported.
-/

set_option autoImplicit false
set_option relaxedAutoImplicit false

namespace ApiHeader

/-- The names that lead from the root to a file or a directory. -/
abbrev Location := List String

/-- Goes down by one name, or up at `..`. The root is its own parent. -/
def Location.step (place : Location) (name : String) : Location :=
  if Path.stays name then place
  else if name = ".." then place.dropLast
  else place ++ [name]

namespace Path

/-- Whether a path can only name a directory. -/
def endsInDirectory (path : String) : Bool :=
  match (names path).getLast? with
  | some name => stays name || name = ".."
  | none => true

/-- The bytes that one name may have. -/
def maxNameSize : Nat := 255

/-- The bytes that a whole path may have. -/
def maxSize : Nat := 4095

end Path

inductive File where
  | data (bytes : ByteArray)
  | directory

structure FileSet where
  working : Location
  entries : List (Location × File)

namespace FileSet

/-! ### Entries -/

def get? (files : FileSet) (place : Location) : Option File :=
  (files.entries.find? fun entry ↦ entry.1 = place).map Prod.snd

def remove (files : FileSet) (place : Location) : FileSet :=
  { files with entries := files.entries.filter fun entry ↦ entry.1 ≠ place }

def put (files : FileSet) (place : Location) (file : File) : FileSet :=
  { files with entries := (place, file) :: (files.remove place).entries }

/-- The bytes of the file at a location. -/
def file? (files : FileSet) (place : Location) : Option ByteArray :=
  match files.get? place with
  | some (.data bytes) => some bytes
  | some .directory | none => none

def isDirectory (files : FileSet) (place : Location) : Bool :=
  match files.get? place with
  | some .directory => true
  | some (.data _) | none => place = []

/-- Puts a file at a location and makes the directories above it. -/
def install (files : FileSet) (location : Location) (file : File) : FileSet :=
  let above := (List.range location.length).map fun depth ↦ location.take depth
  (above.foldl (fun files directory ↦ files.put directory .directory) files).put location file

/-! ### Paths -/

/-- An absolute path starts at the root. -/
def start (files : FileSet) (path : String) : Location :=
  if Path.isAbsolute path then [] else files.working

/-- Files with their paths, and a working directory. -/
def ofList (working : Location) (files : List (String × File)) : FileSet :=
  files.foldl
    (fun all (path, file) ↦
      all.install ((Path.names path).foldl Location.step (all.start path)) file)
    (install ⟨working, []⟩ working .directory)

/-- The path from the root. -/
def absolute (files : FileSet) (path : String) : String :=
  if Path.isAbsolute path then path else "/" ++ "/".intercalate (files.working ++ [path])

/-- Follows one name of a path, which only a directory admits. -/
def enter (files : FileSet) (place : Location) (name : String) : Except FileFailure Location :=
  if files.isDirectory place then
    if name.utf8ByteSize ≤ Path.maxNameSize then .ok (place.step name) else .error .nameTooLong
  else
    match files.get? place with
    | some _ => .error .notDirectory
    | none => .error .missing

/-- Follows a path to its end, where there may be nothing. -/
def resolve (files : FileSet) (path : String) : Except FileFailure Location :=
  if path.toList.any (·.toNat = 0) then .error .nulInPath
  else if path = "" then .error .missing
  else if Path.maxSize < path.utf8ByteSize then .error .nameTooLong
  else (Path.names path).foldlM files.enter (files.start path)

/-! ### Operations -/

def read (files : FileSet) (path : String) : Except FileFailure String := do
  let place ← files.resolve path
  if files.isDirectory place then .error .isDirectory
  else
    match files.file? place with
    | none => .error .missing
    | some bytes =>
      match String.fromUTF8? bytes with
      | some text => .ok text
      | none => .error .notText

/-- The first location for a draft at which nothing stands. -/
def free (files : FileSet) (directory : String) : List Nat → Except FileFailure Location
  | [] => .error (.other "no free name")
  | tag :: tags => do
    let place ← files.resolve (files.absolute (Path.draft directory tag))
    match files.get? place with
    | none => return place
    | some _ => files.free directory tags

/-- One tag more than there are entries is enough to find a free one. -/
def create (files : FileSet) (directory : String) : Except FileFailure (Location × FileSet) := do
  let place ← files.free directory (List.range (files.entries.length + 1))
  return (place, files.put place (.data .empty))

def append (files : FileSet) (place : Location) (text : String) :
    Except FileFailure (Unit × FileSet) :=
  match files.file? place with
  | some bytes => .ok ((), files.put place (.data (bytes ++ text.toUTF8)))
  | none => .error .missing

/-- Takes the place of a file, never of a directory. -/
def move (files : FileSet) (place : Location) (path : String) :
    Except FileFailure (Unit × FileSet) := do
  let target ← files.resolve path
  match files.file? place with
  | some bytes =>
    if Path.endsInDirectory path || files.isDirectory target then .error .isDirectory
    else .ok ((), (files.remove place).put target (.data bytes))
  | none => .error .missing

end FileSet

/-! ### Sessions -/

/-- Files, and what has been printed and reported. -/
structure Session where
  files : FileSet
  printed : String
  events : List Event

namespace Session

/-- Carries out an operation on the files, which stay as they are if it fails. -/
def attempt {α : Type} (operation : FileSet → Except FileFailure (α × FileSet)) :
    StateM Session (Except FileFailure α) :=
  modifyGet fun session ↦
    match operation session.files with
    | .ok (a, files) => (.ok a, { session with files })
    | .error failure => (.error failure, session)

def host : Host Location (StateM Session) where
  read path := do return (← get).files.read path
  create directory := attempt (·.create directory)
  append draft text := attempt (·.append draft text)
  move draft path := attempt (·.move draft path)
  discard draft := modify fun session ↦ { session with files := session.files.remove draft }
  print text := do
    modify fun session ↦ { session with printed := session.printed ++ text }
    return .ok ()
  report event := modify fun session ↦ { session with events := session.events ++ [event] }

end Session

end ApiHeader
