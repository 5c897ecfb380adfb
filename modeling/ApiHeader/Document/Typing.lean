import ApiHeader.Document.Node
import ApiHeader.Json.Value

/-!
# From JSON values to nodes

`node` gives the members of an object the type of a node. The fields of an object
are looked at in the alphabetical order of their names, whatever their order in
the text, and missing ones are noticed after that. A member, a method or a value
of an enumeration can also be written as an array of its fields. A `Mismatch` is a
way in which a value fails to be what it should be, and what is said about it.
-/

set_option autoImplicit false
set_option relaxedAutoImplicit false

namespace ApiHeader

/-! ### Mismatches -/

/-- Parts of a node that can be written as an object or as an array of their fields. -/
inductive Part where
  | member
  | method
  | enumItem
  deriving DecidableEq, Repr

namespace Part

def title : Part → String
  | .member => "RecordMember"
  | .method => "MethodDef"
  | .enumItem => "EnumValue"

def fieldCount : Part → Nat
  | .member => 4
  | .method => 4
  | .enumItem => 3

end Part

/-- What stands where a value of another kind was found. -/
inductive Expected where
  | category
  | sequence
  | string
  | word
  | part (part : Part)
  deriving DecidableEq, Repr

def Expected.message : Expected → String
  | .category => "variant identifier"
  | .sequence => "a sequence"
  | .string => "a string"
  | .word => "u64"
  | .part p => "struct " ++ p.title

inductive Mismatch where
  | missing (field : String)
  | wrongKind (found : String) (expected : Expected)
  | negativeWord (found : String)
  | tooShort (part : Part) (length : Nat)
  | tooLong (part : Part) (length : Nat)
  | badIndirection (text : String)
  | badDirection (text : String)
  | noDirection
  | noLiteral
  deriving DecidableEq, Repr

def Mismatch.message : Mismatch → String
  | .missing field => "missing field `" ++ field ++ "`"
  | .wrongKind found expected => "invalid type: " ++ found ++ ", expected " ++ expected.message
  | .negativeWord found => "invalid value: " ++ found ++ ", expected u64"
  | .tooShort part length =>
    "invalid length " ++ toString length ++ ", expected struct " ++ part.title ++ " with " ++
      toString part.fieldCount ++ " elements"
  | .tooLong part length =>
    "invalid length " ++ toString length ++ ", expected " ++ toString part.fieldCount ++
      " elements in sequence"
  | .badIndirection text => "invalid annotation '" ++ text ++ "'"
  | .badDirection text =>
    "invalid value: string " ++ Text.quote text ++ ", expected true, false, \"in\" or \"out\""
  | .noDirection => "data did not match any variant of untagged enum Raw"
  | .noLiteral => "data did not match any variant of untagged enum ConstantValue"

end ApiHeader

namespace ApiHeader.Typing

/-! ### From JSON values to nodes -/

open Json (Value Members)

/-- Gives a JSON value a type, or says why it does not have it. -/
abbrev Typed (α : Type) : Type := Value → Except Mismatch α

def wrongKind {α : Type} (value : Value) (expected : Expected) : Except Mismatch α :=
  .error (.wrongKind value.kind expected)

def string : Typed String
  | .string s => .ok s
  | value => wrongKind value .string

/-- Accepts `null` for an absent value. -/
def optional {α : Type} (typed : Typed α) : Typed (Option α)
  | .null => .ok none
  | value => some <$> typed value

def sequence {α : Type} (typed : Typed α) : Typed (List α)
  | .array items => items.mapM typed
  | value => wrongKind value .sequence

def tags : Typed (List Tag) := sequence string

def indirection : Typed Indirection
  | .string s =>
    match Indirection.ofSpelling? s with
    | some i => .ok i
    | none => .error (.badIndirection s)
  | value => wrongKind value .string

def word : Typed UInt64
  | .number (.natural n) => .ok n
  | value@(.number (.negative _)) => .error (.negativeWord value.kind)
  | value => wrongKind value .word

/-- The direction of a chain; `true` is inward, and `null` and `false` are none. -/
def direction : Typed (Option Direction)
  | .null | .bool false => .ok none
  | .bool true | .string "in" => .ok (some .inward)
  | .string "out" => .ok (some .outward)
  | .string s => .error (.badDirection s)
  | _ => .error .noDirection

def literal : Typed Literal
  | .number n => .ok (.number n.text)
  | .string s => .ok (.verbatim s)
  | _ => .error .noLiteral

/-- A field that may be absent. -/
def field? {α : Type} (members : Members) (name : String) (typed : Typed α) :
    Except Mismatch (Option α) :=
  match members.last? name with
  | none => .ok none
  | some value => some <$> typed value

/-- A field with a value for its absence. -/
def fieldD {α : Type} (members : Members) (name : String) (typed : Typed α) (absent : α) :
    Except Mismatch α :=
  (·.getD absent) <$> field? members name typed

def require {α : Type} (name : String) : Option α → Except Mismatch α
  | some value => .ok value
  | none => .error (.missing name)

/-- An element that has to be there. -/
def element {α : Type} (part : Part) (items : List Value) (index : Nat) (typed : Typed α) :
    Except Mismatch α :=
  match items[index]? with
  | some value => typed value
  | none => .error (.tooShort part index)

/-- An element with a value for its absence. -/
def elementD {α : Type} (items : List Value) (index : Nat) (typed : Typed α) (absent : α) :
    Except Mismatch α :=
  match items[index]? with
  | some value => typed value
  | none => .ok absent

def checkLength (part : Part) (items : List Value) : Except Mismatch Unit :=
  if part.fieldCount < items.length then .error (.tooLong part items.length) else .ok ()

def member : Typed Member
  | .object members => do
    let indirection ← fieldD members "annotation" (optional indirection) none
    let name ← field? members "name" string
    let tags ← fieldD members "tags" tags []
    let type ← field? members "type" string
    let name ← require "name" name
    let type ← require "type" type
    return { name, type, indirection, tags }
  | .array items => do
    let name ← element .member items 0 string
    let type ← element .member items 1 string
    let indirection ← elementD items 2 (optional indirection) none
    let tags ← elementD items 3 tags []
    checkLength .member items
    return { name, type, indirection, tags }
  | value => wrongKind value (.part .member)

def method : Typed Method
  | .object members => do
    let arguments ← fieldD members "args" (sequence member) []
    let name ← field? members "name" string
    let returns ← fieldD members "returns" (optional string) none
    let tags ← fieldD members "tags" tags []
    let name ← require "name" name
    return { name, returns, arguments, tags }
  | .array items => do
    let name ← element .method items 0 string
    let returns ← elementD items 1 (optional string) none
    let arguments ← elementD items 2 (sequence member) []
    let tags ← elementD items 3 tags []
    checkLength .method items
    return { name, returns, arguments, tags }
  | value => wrongKind value (.part .method)

def enumItem : Typed EnumItem
  | .object members => do
    let name ← field? members "name" string
    let tags ← fieldD members "tags" tags []
    let number ← fieldD members "value" (optional word) none
    let name ← require "name" name
    return { name, number, tags }
  | .array items => do
    let name ← element .enumItem items 0 string
    let number ← elementD items 1 (optional word) none
    let tags ← elementD items 2 tags []
    checkLength .enumItem items
    return { name, number, tags }
  | value => wrongKind value (.part .enumItem)

def record (members : Members) : Except Mismatch Record := do
  let chained ← fieldD members "chained" direction none
  let extensible ← fieldD members "extensible" direction none
  let list ← fieldD members "members" (sequence member) []
  let tags ← fieldD members "tags" tags []
  return { members := list, extensible, chained, tags }

def object (members : Members) : Except Mismatch Object := do
  let methods ← fieldD members "methods" (sequence method) []
  let tags ← fieldD members "tags" tags []
  return { methods, tags }

def enumeration (members : Members) : Except Mismatch Enumeration := do
  let tags ← fieldD members "tags" tags []
  let items ← fieldD members "values" (sequence enumItem) []
  return { items, tags }

def signature (members : Members) : Except Mismatch Signature := do
  let arguments ← fieldD members "args" (sequence member) []
  let returns ← fieldD members "returns" (optional string) none
  let tags ← fieldD members "tags" tags []
  return { returns, arguments, tags }

def typedef (members : Members) : Except Mismatch Typedef := do
  let indirection ← fieldD members "annotation" (optional indirection) none
  let tags ← fieldD members "tags" tags []
  let target ← field? members "type" string
  let target ← require "type" target
  return { target, indirection, tags }

def constant (members : Members) : Except Mismatch Constant := do
  let tags ← fieldD members "tags" tags []
  let type ← field? members "type" string
  let value ← field? members "value" literal
  let type ← require "type" type
  let value ← require "value" value
  return { type, value, tags }

def category (members : Members) : Except Mismatch Category :=
  match members.last? "category" with
  | none => .error (.missing "category")
  | some (.string s) => .ok (.ofSpelling s)
  | some value => wrongKind value .category

def node (members : Members) : Except Mismatch Node := do
  match ← category members with
  | .record => .record <$> record members
  | .callbackInfo => .callbackInfo <$> record members
  | .object => .object <$> object members
  | .enumeration => .enumeration <$> enumeration members
  | .bitmask => .bitmask <$> enumeration members
  | .functionPointer => .functionPointer <$> signature members
  | .callback => .callback <$> signature members
  | .function => .function <$> signature members
  | .typedef => .typedef <$> typedef members
  | .constant => .constant <$> constant members
  | .native => .native <$> fieldD members "tags" tags []
  | .other => return .other

end ApiHeader.Typing
