import ApiHeader.Document.Basic

/-!
# Schemas

Primitives are the types that need no declaration. A description has names for them,
and some of them are named after the interface, and take its type prefix. The
`Catalogue` has the types that a document declares: the C name and the category of
each, in the order of the document. A key with the name of a primitive is not among
them, and no two types may have the same C name. A `Schema` is a document free of
clashes, with the catalogue of its types.
-/

set_option autoImplicit false
set_option relaxedAutoImplicit false

namespace ApiHeader

/-! ### Primitives -/

inductive Primitive where
  | char
  | int8
  | int16
  | int32
  | int64
  | uint8
  | uint16
  | uint32
  | uint64
  | size
  | int
  | float
  | double
  | void
  | bool
  | voidPointer
  | constVoidPointer
  | string
  | chainedStruct
  | chainedStructOut
  deriving DecidableEq, Repr

namespace Primitive

/-- The primitive that a description means by a type name. -/
def ofName? : String → Option Primitive
  | "char" => some .char
  | "int8_t" => some .int8
  | "int16_t" => some .int16
  | "int32_t" => some .int32
  | "int64_t" => some .int64
  | "uint8_t" => some .uint8
  | "uint16_t" => some .uint16
  | "uint32_t" => some .uint32
  | "uint64_t" => some .uint64
  | "size_t" => some .size
  | "int" => some .int
  | "float" => some .float
  | "double" => some .double
  | "void" => some .void
  | "bool" => some .bool
  | "void *" | "void*" => some .voidPointer
  | "void const *" | "const void *" | "const void*" => some .constVoidPointer
  | "string" => some .string
  | "chained struct" => some .chainedStruct
  | "chained struct out" => some .chainedStructOut
  | _ => none

/-- The primitive as a C type, under a type prefix. -/
def text (typePrefix : String) : Primitive → String
  | .char => "char"
  | .int8 => "int8_t"
  | .int16 => "int16_t"
  | .int32 => "int32_t"
  | .int64 => "int64_t"
  | .uint8 => "uint8_t"
  | .uint16 => "uint16_t"
  | .uint32 => "uint32_t"
  | .uint64 => "uint64_t"
  | .size => "size_t"
  | .int => "int"
  | .float => "float"
  | .double => "double"
  | .void => "void"
  | .bool => typePrefix ++ "Bool"
  | .voidPointer => "void*"
  | .constVoidPointer => "const void*"
  | .string => "const char*"
  | .chainedStruct => typePrefix ++ "ChainedStruct"
  | .chainedStructOut => typePrefix ++ "ChainedStructOut"

/-- Whether the C type already says that what it points to is constant. -/
def isConstView : Primitive → Bool
  | .constVoidPointer | .string => true
  | _ => false

end Primitive

/-! ### The catalogue of types -/

/-- The C name of a key under a type prefix. -/
def typeName (typePrefix : String) (key : Key) : String :=
  typePrefix ++ Text.pascalCase key

structure CatalogueEntry where
  name : String
  category : Category
  deriving DecidableEq, Repr

abbrev Catalogue : Type := Table CatalogueEntry

/-- Two keys, in the order of the document, with the same C name. -/
structure SameName where
  name : String
  first : Key
  second : Key
  deriving DecidableEq, Repr

def SameName.message (e : SameName) : String :=
  "keys '" ++ e.first ++ "' and '" ++ e.second ++ "' both generate identifier '" ++ e.name ++ "'"

namespace Catalogue

/-- A key is in the catalogue when its category has types and no primitive has its name. -/
def registers (key : Key) (node : Node) : Bool :=
  node.category.isRegistered && (Primitive.ofName? key).isNone

/-- The key that has a name. -/
def keyOf? (catalogue : Catalogue) (name : String) : Option Key :=
  (catalogue.entries.find? fun (_, entry) ↦ entry.name = name).map Prod.fst

def addNodes (typePrefix : String) (catalogue : Catalogue) :
    List (Key × Node) → Except SameName Catalogue
  | [] => .ok catalogue
  | (key, node) :: rest =>
    if registers key node then
      let name := typeName typePrefix key
      match catalogue.keyOf? name with
      | some first => .error ⟨name, first, key⟩
      | none => addNodes typePrefix (catalogue.insert key ⟨name, node.category⟩) rest
    else addNodes typePrefix catalogue rest

def ofDocument (document : Document) (typePrefix : String) : Except SameName Catalogue :=
  addNodes typePrefix .empty document.entries

end Catalogue

/-! ### Schemas -/

structure Schema where
  document : Document
  catalogue : Catalogue

inductive SchemaError where
  | document (e : DocumentError)
  | sameName (e : SameName)
  | clash (e : Clash)
  deriving DecidableEq, Repr

def SchemaError.message : SchemaError → String
  | .document e => "parse error: " ++ e.message
  | .sameName e => e.message
  | .clash e => "validation error: " ++ e.message

namespace Schema

/-- Clashes inside declarations are found before names that two types share. -/
def ofDocument (document : Document) (typePrefix : String) : Except SchemaError Schema :=
  match document.clash? with
  | some clash => .error (.clash clash)
  | none =>
    match Catalogue.ofDocument document typePrefix with
    | .ok catalogue => .ok ⟨document, catalogue⟩
    | .error e => .error (.sameName e)

def read (text typePrefix : String) : Except SchemaError Schema :=
  match Document.read text with
  | .ok document => ofDocument document typePrefix
  | .error e => .error (.document e)

end Schema

end ApiHeader
