import ApiHeader.Document.Typing
import ApiHeader.Json.Reader
import ApiHeader.Text.Casing

/-!
# Documents

`Document.read` goes from a text to a document. The whole text is read first, so
that a fault of its syntax comes before all others; then `Document.ofMembers`
takes the keys in order, leaves out the private ones, and stops at the first
value that is no node.

A document may hold names that would collide inside one declaration: two members,
two arguments, two values or two methods with the same spelling as identifiers.
`Document.clash?` is the first such clash in the order of the document.
-/

set_option autoImplicit false
set_option relaxedAutoImplicit false

namespace ApiHeader

/-! ### Reading a document -/

/-- Why a file could not be read or written. -/
inductive FileFailure where
  | missing
  | isDirectory
  | notDirectory
  | nameTooLong
  | nulInPath
  | notText
  | other (text : String)
  deriving DecidableEq, Repr

def FileFailure.message : FileFailure → String
  | .missing => "No such file or directory (os error 2)"
  | .isDirectory => "Is a directory (os error 21)"
  | .notDirectory => "Not a directory (os error 20)"
  | .nameTooLong => "File name too long (os error 36)"
  | .nulInPath => "file name contained an unexpected NUL byte"
  | .notText => "stream did not contain valid UTF-8"
  | .other text => text

inductive DocumentError where
  | unreadable (failure : FileFailure)
  | malformed (fault : Json.Located)
  | badNode (key : Key) (mismatch : Mismatch)
  | badIndirection (text : String)
  | notObject (key : Key)
  deriving DecidableEq, Repr

def DocumentError.message : DocumentError → String
  | .unreadable failure => "IO error: " ++ failure.message
  | .malformed fault => "JSON parsing error: " ++ fault.message
  | .badNode key mismatch => "invalid node '" ++ key ++ "': " ++ mismatch.message
  | .badIndirection text => "invalid annotation '" ++ text ++ "'"
  | .notObject key => "invalid document structure: node '" ++ key ++ "' is not an object"

def Indirection.read (text : String) : Except DocumentError Indirection :=
  match Indirection.ofSpelling? text with
  | some i => .ok i
  | none => .error (.badIndirection text)

/-- Private keys hold notes and are not part of the interface. -/
def isPrivate (key : Key) : Bool :=
  key.toList.head? = some '_'

namespace Document

/-- The node under a key. -/
def readNode (key : Key) : Json.Value → Except DocumentError Node
  | .object members =>
    match Typing.node members with
    | .ok node => .ok node
    | .error mismatch => .error (.badNode key mismatch)
  | _ => .error (.notObject key)

/-- Adds the nodes of the public keys, in order. -/
def addNodes (document : Document) : Json.Members → Except DocumentError Document
  | [] => .ok document
  | (key, value) :: rest =>
    if isPrivate key then addNodes document rest
    else
      match readNode key value with
      | .ok node => addNodes (document.insert key node) rest
      | .error e => .error e

/-- The document with these members: a repeated key stays where it first stood and
takes its last value. -/
def ofMembers (members : Json.Members) : Except DocumentError Document :=
  addNodes .empty (Table.ofList members).entries

def read (text : String) : Except DocumentError Document :=
  match Json.readMembers text with
  | .ok members => ofMembers members
  | .error fault => .error (.malformed fault)

end Document

/-! ### Clashes -/

inductive Clash where
  | member (name owner : String)
  | argument (name owner : String)
  | enumItem (name owner : String)
  | method (name owner : String)
  deriving DecidableEq, Repr

def Clash.message : Clash → String
  | .member name owner => "duplicate member '" ++ name ++ "' in '" ++ owner ++ "'"
  | .argument name owner => "duplicate argument '" ++ name ++ "' in '" ++ owner ++ "'"
  | .enumItem name owner => "duplicate enum value name '" ++ name ++ "' in '" ++ owner ++ "'"
  | .method name owner => "duplicate method '" ++ name ++ "' in object '" ++ owner ++ "'"

namespace Clash

/-- The first name whose spelling an earlier name has. -/
def repeated? (spell : String → String) (seen : List String) : List String → Option String
  | [] => none
  | name :: names =>
    if spell name ∈ seen then some name else repeated? spell (spell name :: seen) names

def arguments? (owner : String) (arguments : List Member) : Option Clash :=
  (repeated? Text.camelCase [] (arguments.map Member.name)).map (.argument · owner)

def members? (owner : String) (members : List Member) : Option Clash :=
  (repeated? Text.camelCase [] (members.map Member.name)).map (.member · owner)

def items? (owner : String) (items : List EnumItem) : Option Clash :=
  (repeated? Text.valueCase [] (items.map EnumItem.name)).map (.enumItem · owner)

/-- Methods in order: first whether the name of one is taken, then its arguments. -/
def methods? (owner : String) (seen : List String) : List Method → Option Clash
  | [] => none
  | first :: rest =>
    let spelling := Text.camelCase first.name
    if spelling ∈ seen then some (.method first.name owner)
    else
      match arguments? (owner ++ "." ++ first.name) first.arguments with
      | some clash => some clash
      | none => methods? owner (spelling :: seen) rest

def node? (key : Key) : Node → Option Clash
  | .record r | .callbackInfo r => members? key r.members
  | .object o => methods? key [] o.methods
  | .enumeration e | .bitmask e => items? key e.items
  | .functionPointer s | .callback s | .function s => arguments? key s.arguments
  | .typedef _ | .constant _ | .native _ | .other => none

end Clash

/-- The first clash in a document. -/
def Document.clash? (document : Document) : Option Clash :=
  document.entries.findSome? fun (key, node) ↦ Clash.node? key node

end ApiHeader
