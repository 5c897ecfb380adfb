import ApiHeader.Settings

/-!
# Command lines

`Request.ofArguments` reads the arguments of a command line from left to right and
makes them a request. The first error wins. An option whose value is an argument
of its own takes effect only when the next option comes, or the end of the line,
so that an unknown argument in between is the error that is told.
-/

set_option autoImplicit false
set_option relaxedAutoImplicit false

namespace ApiHeader

structure Request where
  input : String
  output : Option String
  excludeTags : List String
  typePrefix : Option String
  functionPrefix : Option String
  procs : Bool
  deriving DecidableEq, Repr

/-- The settings that a request asks for. -/
def Request.settings (r : Request) : Settings :=
  let base := (Settings.standard.withExclusion (.ofLists r.excludeTags)).withProcs r.procs
  let typed := (r.typePrefix.map base.withTypePrefix).getD base
  (r.functionPrefix.map typed.withFunctionPrefix).getD typed

/-- Options that take a value. -/
inductive ValueOption where
  | input
  | output
  | excludeTags
  | typePrefix
  | functionPrefix
  deriving DecidableEq, Repr

/-- Options that take none. -/
inductive FlagOption where
  | procs
  | help
  | version
  deriving DecidableEq, Repr

inductive CommandOption where
  | value (option : ValueOption)
  | flag (option : FlagOption)
  deriving DecidableEq, Repr

namespace CommandOption

def ofLong? : String → Option CommandOption
  | "input" => some (.value .input)
  | "output" => some (.value .output)
  | "exclude-tags" => some (.value .excludeTags)
  | "type-prefix" => some (.value .typePrefix)
  | "function-prefix" => some (.value .functionPrefix)
  | "procs" => some (.flag .procs)
  | "help" => some (.flag .help)
  | "version" => some (.flag .version)
  | _ => none

def ofShort? : Char → Option CommandOption
  | 'i' => some (.value .input)
  | 'o' => some (.value .output)
  | 'x' => some (.value .excludeTags)
  | 'h' => some (.flag .help)
  | 'V' => some (.flag .version)
  | _ => none

end CommandOption

/-- Why a command line makes no request. -/
inductive UsageError where
  | help
  | version
  | unknownArgument
  | noValue (option : ValueOption)
  | emptyPath (option : ValueOption)
  | repeated (option : CommandOption)
  | valueForFlag (option : FlagOption)
  deriving DecidableEq, Repr

/-- The options read so far. `awaiting` is an option that was named by an argument
of its own, with the value that followed it, if that has come; it takes effect
at the next option or at the end. After `--` no argument is an option. -/
structure Draft where
  input : Option String := none
  output : Option String := none
  excludeTags : List String := []
  typePrefix : Option String := none
  functionPrefix : Option String := none
  procs : Bool := false
  awaiting : Option (ValueOption × Option String) := none
  optionsEnded : Bool := false
  deriving DecidableEq, Repr

namespace Draft

/-- Sets an option that may be given once. -/
def once (option : ValueOption) (old : Option String) (value : String) (isPath : Bool)
    (set : String → Draft) : Except UsageError Draft :=
  if old.isSome then .error (.repeated (.value option))
  else if isPath ∧ value = "" then .error (.emptyPath option)
  else .ok (set value)

def setValue (d : Draft) (option : ValueOption) (value : String) : Except UsageError Draft :=
  match option with
  | .input => once option d.input value true fun v ↦ { d with input := some v }
  | .output => once option d.output value true fun v ↦ { d with output := some v }
  | .excludeTags => .ok { d with excludeTags := d.excludeTags ++ [value] }
  | .typePrefix => once option d.typePrefix value false fun v ↦ { d with typePrefix := some v }
  | .functionPrefix =>
    once option d.functionPrefix value false fun v ↦ { d with functionPrefix := some v }

/-- Lets the awaited option take effect. -/
def settle (d : Draft) : Except UsageError Draft :=
  match d.awaiting with
  | none => .ok d
  | some (option, none) => .error (.noValue option)
  | some (option, some value) => { d with awaiting := none }.setValue option value

/-- An option that takes a value, with the value that is attached to it, if any. -/
def addValue (d : Draft) (option : ValueOption) (attached : Option String) :
    Except UsageError Draft := do
  let d ← d.settle
  match attached with
  | some value => d.setValue option value
  | none => return { d with awaiting := some (option, none) }

def addFlag (d : Draft) (option : FlagOption) : Except UsageError Draft := do
  let d ← d.settle
  match option with
  | .help => .error .help
  | .version => .error .version
  | .procs => if d.procs then .error (.repeated (.flag .procs)) else return { d with procs := true }

/-- An argument after two hyphens; a value may follow a first `=`. -/
def addLong (d : Draft) (body : List Char) : Except UsageError Draft :=
  let name := String.ofList (body.takeWhile (· ≠ '='))
  let attached : Option String :=
    match body.dropWhile (· ≠ '=') with
    | [] => none
    | _ :: value => some (.ofList value)
  match CommandOption.ofLong? name with
  | none => .error .unknownArgument
  | some (.value option) => d.addValue option attached
  | some (.flag option) =>
    if attached.isSome then .error (.valueForFlag option) else d.addFlag option

/-- An argument after one hyphen: flags, and then perhaps an option with its value. -/
def addShort (d : Draft) : List Char → Except UsageError Draft
  | [] => .ok d
  | c :: rest =>
    match CommandOption.ofShort? c with
    | none => .error .unknownArgument
    | some (.flag option) => do
      let d ← d.addFlag option
      d.addShort rest
    | some (.value option) =>
      match rest with
      | [] => d.addValue option none
      | '=' :: value => d.addValue option (some (.ofList value))
      | value => d.addValue option (some (.ofList value))

/-- An argument that is no option can only be the value that an option awaits. -/
def addPlain (d : Draft) (argument : String) : Except UsageError Draft :=
  match d.awaiting with
  | some (option, none) => .ok { d with awaiting := some (option, some argument) }
  | _ => .error .unknownArgument

def add (d : Draft) (argument : String) : Except UsageError Draft :=
  if d.optionsEnded then .error .unknownArgument
  else
    match argument.toList with
    | ['-', '-'] => .ok { d with optionsEnded := true }
    | '-' :: '-' :: body => d.addLong body
    | '-' :: c :: rest => d.addShort (c :: rest)
    | _ => d.addPlain argument

def finish (d : Draft) : Except UsageError Request := do
  let d ← d.settle
  return {
    input := d.input.getD "dawn.json"
    output := d.output
    excludeTags := d.excludeTags
    typePrefix := d.typePrefix
    functionPrefix := d.functionPrefix
    procs := d.procs }

end Draft

/-- The request that the arguments of a command line make. -/
def Request.ofArguments (arguments : List String) : Except UsageError Request := do
  let draft ← arguments.foldlM Draft.add {}
  draft.finish

end ApiHeader
