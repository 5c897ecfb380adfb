import ApiHeader.Command.Run

/-!
# The program

Reads the description, writes or prints the header, and tells on the error stream
what happened.
-/

set_option autoImplicit false
set_option relaxedAutoImplicit false

namespace ApiHeader

def usage : String :=
  "Usage: api-header [OPTIONS]\n\n" ++
  "  -i, --input <INPUT>                description to read [default: dawn.json]\n" ++
  "  -o, --output <OUTPUT>              header to write; printed when omitted\n" ++
  "  -x, --exclude-tags <TAGS>          comma-separated tags to leave out; may be repeated\n" ++
  "      --type-prefix <TYPE_PREFIX>    prefix of type names\n" ++
  "      --function-prefix <PREFIX>     prefix of function names\n" ++
  "      --procs                        also write types of function pointers\n" ++
  "  -h, --help                         print this text\n" ++
  "  -V, --version                      print the version\n"

/-- The number of a system error, which some calls report negated. -/
def errorNumber (code : UInt32) : Nat :=
  if code < 0x80000000 then code.toNat else (0 - code).toNat

def fileFailure (e : IO.Error) : FileFailure :=
  match e with
  | .noFileOrDirectory .. => .missing
  | .inappropriateType _ code _ | .invalidArgument _ code _ =>
    match errorNumber code with
    | 20 => .notDirectory
    | 21 => .isDirectory
    | 36 => .nameTooLong
    | _ => .other (toString e)
  | e => .other (toString e)

def attempt {α : Type} (action : IO α) : IO (Except FileFailure α) := do
  try
    return .ok (← action)
  catch e => return .error (fileFailure e)

def readInput (path : String) : IO (Except FileFailure String) := do
  match ← attempt (IO.FS.readBinFile path) with
  | .error failure => return .error failure
  | .ok bytes =>
    match String.fromUTF8? bytes with
    | some text => return .ok text
    | none => return .error .notText

structure OpenDraft where
  path : String
  handle : IO.FS.Handle

/-- The files and streams of the system. -/
def systemHost : Host OpenDraft IO where
  read := readInput
  create directory := attempt do
    let path := Path.draft directory ((← IO.monoNanosNow) % 1000000)
    return ⟨path, ← IO.FS.Handle.mk path .writeNew⟩
  append draft text := attempt do
    draft.handle.putStr text
    draft.handle.flush
  move draft path := attempt (IO.FS.rename draft.path path)
  discard draft := do
    let _ ← attempt (IO.FS.removeFile draft.path)
  print text := attempt do
    let stdout ← IO.getStdout
    stdout.putStr text
    stdout.flush
  report event := do
    match event.level with
    | .info => IO.eprintln ("INFO " ++ event.message)
    | .debug => return

end ApiHeader

open ApiHeader in
def main (arguments : List String) : IO UInt32 := do
  match Request.ofArguments arguments with
  | .ok request =>
    match ← request.run systemHost with
    | .ok () => return 0
    | .error e =>
      IO.eprintln ("ERROR " ++ e.message)
      return 1
  | .error .help =>
    IO.print usage
    return 0
  | .error .version =>
    IO.println "0.1.0"
    return 0
  | .error _ =>
    IO.eprint usage
    return 2
