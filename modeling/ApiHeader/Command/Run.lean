import ApiHeader.Command.Request
import ApiHeader.Header.Basic

/-!
# Carrying out a request

`Request.run` reads the description that a request names, and prints the header or
writes it to a file. It does so through a `Host`, which has the files and the streams:
the program runs on those of the system, and `Session.host` keeps files as values.
Nothing is printed or written unless the header is complete, and a file is replaced by
a draft that is complete (`Host.write`).
-/

set_option autoImplicit false
set_option relaxedAutoImplicit false

namespace ApiHeader

/-! ### Paths -/

namespace Path

/-- The names between the slashes. -/
def names (path : String) : List String :=
  (path.toList.splitOnP (· = '/')).map String.ofList

def isAbsolute (path : String) : Bool :=
  path.toList.head? = some '/'

/-- Whether a name leads nowhere else. -/
def stays (name : String) : Bool :=
  name = "" || name = "."

/-- The names up to the last one that leads elsewhere. -/
def moving (names : List String) : List String :=
  (names.reverse.dropWhile stays).reverse

/-- The directory in which the last name of a path stands. -/
def directory (path : String) : String :=
  let own := moving (names path)
  match moving own.dropLast with
  | [] => if isAbsolute path && own ≠ [] then "/" else "."
  | above => "/".intercalate above

/-- The path of a draft in a directory, with a tag of six digits at its end. -/
def draft (directory : String) (tag : Nat) : String :=
  (if directory = "/" then directory else directory ++ "/") ++ ".tmp" ++
    .ofList (List.leftpad 6 '0' (Nat.toDigits 10 tag))

end Path

/-! ### Hosts -/

/-- The files and streams that requests are carried out with. A draft is a file under
a fresh name. -/
structure Host (Draft : Type) (m : Type → Type) where
  read : String → m (Except FileFailure String)
  /-- Makes an empty draft in a directory. -/
  create : String → m (Except FileFailure Draft)
  append : Draft → String → m (Except FileFailure Unit)
  /-- Moves a draft to a path, in place of a file that may be there. -/
  move : Draft → String → m (Except FileFailure Unit)
  discard : Draft → m Unit
  print : String → m (Except FileFailure Unit)
  report : Event → m Unit

section

variable {Draft : Type} {m : Type → Type} [Monad m]

namespace Host

/-- Completes a draft and moves it to its path. -/
def finish (host : Host Draft m) (draft : Draft) (path text : String) :
    m (Except FileFailure Unit) := do
  match ← host.append draft text with
  | .error failure => return .error failure
  | .ok () => host.move draft path

/-- Writes a text to a path by way of a draft in the same directory. A draft that
cannot be finished is discarded. -/
def write (host : Host Draft m) (path text : String) : m (Except FileFailure Unit) := do
  match ← host.create (Path.directory path) with
  | .error failure => return .error failure
  | .ok draft =>
    match ← host.finish draft path text with
    | .error failure =>
      host.discard draft
      return .error failure
    | .ok () =>
      host.report (.wrote text.utf8ByteSize path)
      return .ok ()

/-- Without a path, a text is printed. -/
def deliver (host : Host Draft m) (output : Option String) (text : String) :
    m (Except FileFailure Unit) :=
  match output with
  | none => host.print text
  | some path => host.write path text

end Host

def Request.run (request : Request) (host : Host Draft m) : m (Except HeaderError Unit) := do
  host.report (.reading request.input)
  let header := headerOfFile (← host.read request.input) request.settings
  header.events.forM host.report
  match header.result with
  | .error e => return .error e
  | .ok text => return (← host.deliver request.output text).mapError .unwritable

end

end ApiHeader
