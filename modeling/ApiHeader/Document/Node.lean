import ApiHeader.Table

/-!
# Nodes

What a description declares: one `Node` for each key, of one of eleven categories
or of none of them. A `Document` is a table of nodes. The categories that declare
types are those with `Category.isRegistered`; `Category.isRecord` and
`Category.isAlias` are two families of these. Members and aliases can point to
their types in the ways of `Indirection`.
-/

set_option autoImplicit false
set_option relaxedAutoImplicit false

namespace ApiHeader

/-! ### Indirection -/

/-- A pointer, a pointer to something constant, or a pointer to a constant pointer
to something constant. -/
inductive Indirection where
  | pointer
  | constPointer
  | constPointerPointer
  deriving DecidableEq, Repr

namespace Indirection

def spelling : Indirection → String
  | .pointer => "*"
  | .constPointer => "const*"
  | .constPointerPointer => "const*const*"

def ofSpelling? : String → Option Indirection
  | "*" => some .pointer
  | "const*" => some .constPointer
  | "const*const*" => some .constPointerPointer
  | _ => none

theorem ofSpelling?_spelling (i : Indirection) : ofSpelling? i.spelling = some i := by
  cases i <;> rfl

end Indirection

/-! ### Nodes -/

/-- A label by which declarations can be left out of a header. -/
abbrev Tag : Type := String

/-- A member of a record, or an argument of a function. -/
structure Member where
  name : String
  type : String
  indirection : Option Indirection
  tags : List Tag
  deriving DecidableEq, Repr

/-- A member holds its type itself when it does not point to it. -/
def Member.isByValue (m : Member) : Bool := m.indirection.isNone

/-- Which way a chain of extensions runs: into a call or out of it. -/
inductive Direction where
  | inward
  | outward
  deriving DecidableEq, Repr

/-- An `extensible` record starts a chain, a `chained` one is a link of it. -/
structure Record where
  members : List Member
  extensible : Option Direction
  chained : Option Direction
  tags : List Tag
  deriving DecidableEq, Repr

structure Method where
  name : String
  returns : Option String
  arguments : List Member
  tags : List Tag
  deriving DecidableEq, Repr

structure Object where
  methods : List Method
  tags : List Tag
  deriving DecidableEq, Repr

/-- A named value of an enumeration; without a number it follows the value before it. -/
structure EnumItem where
  name : String
  number : Option UInt64
  tags : List Tag
  deriving DecidableEq, Repr

structure Enumeration where
  items : List EnumItem
  tags : List Tag
  deriving DecidableEq, Repr

structure Signature where
  returns : Option String
  arguments : List Member
  tags : List Tag
  deriving DecidableEq, Repr

structure Typedef where
  target : String
  indirection : Option Indirection
  tags : List Tag
  deriving DecidableEq, Repr

/-- The value of a constant: a number, by its text, or a text that is copied as it is. -/
inductive Literal where
  | number (text : String)
  | verbatim (text : String)
  deriving DecidableEq, Repr

structure Constant where
  type : String
  value : Literal
  tags : List Tag
  deriving DecidableEq, Repr

inductive Category where
  | record
  | object
  | enumeration
  | bitmask
  | functionPointer
  | callback
  | callbackInfo
  | function
  | typedef
  | constant
  | native
  | other
  deriving DecidableEq, Repr

namespace Category

def spelling : Category → String
  | .record => "structure"
  | .object => "object"
  | .enumeration => "enum"
  | .bitmask => "bitmask"
  | .functionPointer => "function pointer"
  | .callback => "callback function"
  | .callbackInfo => "callback info"
  | .function => "function"
  | .typedef => "typedef"
  | .constant => "constant"
  | .native => "native"
  | .other => "other"

/-- A spelling that names no category is the category of other things. -/
def ofSpelling : String → Category
  | "structure" => .record
  | "object" => .object
  | "enum" => .enumeration
  | "bitmask" => .bitmask
  | "function pointer" => .functionPointer
  | "callback function" => .callback
  | "callback info" => .callbackInfo
  | "function" => .function
  | "typedef" => .typedef
  | "constant" => .constant
  | "native" => .native
  | _ => .other

theorem ofSpelling_spelling (c : Category) : ofSpelling c.spelling = c := by
  cases c <;> rfl

/-- The categories whose keys become names of types. -/
def isRegistered : Category → Bool
  | .record | .object | .enumeration | .bitmask | .functionPointer | .callback
  | .callbackInfo | .typedef => true
  | .function | .constant | .native | .other => false

/-- The categories whose types are records with members. -/
def isRecord : Category → Bool
  | .record | .callbackInfo => true
  | _ => false

/-- The categories whose types are other names for types. -/
def isAlias : Category → Bool
  | .typedef | .functionPointer | .callback => true
  | _ => false

end Category

inductive Node where
  | record (record : Record)
  | callbackInfo (record : Record)
  | object (object : Object)
  | enumeration (enumeration : Enumeration)
  | bitmask (enumeration : Enumeration)
  | functionPointer (signature : Signature)
  | callback (signature : Signature)
  | function (signature : Signature)
  | typedef (typedef : Typedef)
  | constant (constant : Constant)
  | native (tags : List Tag)
  | other
  deriving DecidableEq, Repr

namespace Node

def category : Node → Category
  | .record _ => .record
  | .callbackInfo _ => .callbackInfo
  | .object _ => .object
  | .enumeration _ => .enumeration
  | .bitmask _ => .bitmask
  | .functionPointer _ => .functionPointer
  | .callback _ => .callback
  | .function _ => .function
  | .typedef _ => .typedef
  | .constant _ => .constant
  | .native _ => .native
  | .other => .other

def tags : Node → List Tag
  | .record r | .callbackInfo r => r.tags
  | .object o => o.tags
  | .enumeration e | .bitmask e => e.tags
  | .functionPointer s | .callback s | .function s => s.tags
  | .typedef a => a.tags
  | .constant c => c.tags
  | .native tags => tags
  | .other => []

def record? : Node → Option Record
  | .record r | .callbackInfo r => some r
  | _ => none

theorem isSome_record? (n : Node) : n.record?.isSome = n.category.isRecord := by
  cases n <;> rfl

end Node

/-- A description: its nodes, in the order in which their keys first appear. -/
abbrev Document : Type := Table Node

end ApiHeader
