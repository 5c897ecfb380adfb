import ApiHeader.Schema

/-!
# Declarations

A `TypeRef` is a type as a header refers to it, and a `Declarator` a name declared
with such a type. Their text depends on the type prefix only where a name is made
from it.

The declarations of a header are data, and each has its text. An `Item` remembers
the key that a declaration comes from. A `Prototype` is a function, which a header
declares twice: as a function, and as the type of a pointer to it.
-/

set_option autoImplicit false
set_option relaxedAutoImplicit false

namespace ApiHeader

/-! ### C types -/

/-- What a type name of a description stands for: a primitive, a type that the
header declares, or a type that is declared elsewhere. -/
inductive TypeName where
  | primitive (primitive : Primitive)
  | declared (name : String)
  | foreign (key : Key)
  deriving DecidableEq, Repr

namespace TypeName

def text (typePrefix : String) : TypeName → String
  | .primitive p => p.text typePrefix
  | .declared name => name
  | .foreign key => typeName typePrefix key

def isConstView : TypeName → Bool
  | .primitive p => p.isConstView
  | _ => false

end TypeName

/-- Points to a type by its text. A type that already views something constant
needs no further `const`. -/
def Indirection.apply (base : String) (constView : Bool) : Option Indirection → String
  | none => base
  | some .pointer => base ++ "*"
  | some .constPointer => qualifier ++ base ++ "*"
  | some .constPointerPointer => qualifier ++ base ++ "* const*"
where
  qualifier : String := if constView then "" else "const "

/-- A type name and the way to point to it. -/
structure TypeRef where
  name : TypeName
  indirection : Option Indirection := none
  deriving DecidableEq, Repr

def TypeRef.text (typePrefix : String) (t : TypeRef) : String :=
  Indirection.apply (t.name.text typePrefix) t.name.isConstView t.indirection

/-- A declared name with its type: a member of a record or a parameter. -/
structure Declarator where
  type : TypeRef
  name : String
  deriving DecidableEq, Repr

def Declarator.text (typePrefix : String) (d : Declarator) : String :=
  d.type.text typePrefix ++ " " ++ d.name

/-- The inside of the brackets of a function: its parameters, or `void`. -/
def parameterText (parameters : List String) : String :=
  if parameters = [] then "void" else ", ".intercalate parameters

/-! ### Declarations -/

/-- A value of an enumeration, under its full name. -/
structure Enumerator where
  name : String
  value : UInt64
  deriving DecidableEq, Repr

/-- Enumerators are written with at least eight hexadecimal digits. -/
def Enumerator.text (e : Enumerator) : String :=
  "    " ++ e.name ++ " = 0x" ++ .ofList (Text.hexUpper 8 e.value.toNat) ++ ",\n"

inductive Declaration where
  /-- A macro; a number is cast to its type. -/
  | constant (name : String) (type : Option TypeName) (value : String)
  /-- A pointer to a type whose contents stay hidden. -/
  | handle (name : String)
  /-- A record whose members follow later. -/
  | forward (name : String)
  | enumeration (name : String) (enumerators : List Enumerator)
  /-- The type of a set of bits of an enumeration. -/
  | flags (name : String)
  | typedef (name : String) (type : TypeRef)
  | functionPointer (name : String) (returns : TypeRef) (parameters : List Declarator)
  /-- A link in the chain of extensions, with a tag for the kind of record it is part of. -/
  | chainLink (direction : Direction) (tag : TypeName)
  | record (name : String) (members : List Declarator)
  deriving DecidableEq, Repr

/-- The primitive for the links of chains in a direction. -/
def Direction.link : Direction → Primitive
  | .inward => .chainedStruct
  | .outward => .chainedStructOut

namespace Declaration

/-- The text of a declaration under a type prefix, line breaks included. -/
def text (typePrefix : String) : Declaration → String
  | .constant name (some type) value =>
    "#define " ++ name ++ " ((" ++ type.text typePrefix ++ ")" ++ value ++ ")\n"
  | .constant name none value => "#define " ++ name ++ " (" ++ value ++ ")\n"
  | .handle name => "typedef struct " ++ name ++ "Impl* " ++ name ++ ";\n"
  | .forward name => "typedef struct " ++ name ++ " " ++ name ++ ";\n"
  | .enumeration name enumerators =>
    "typedef enum " ++ name ++ " \x7b\n" ++ String.join (enumerators.map Enumerator.text) ++
      "    " ++ name ++ "_Force32 = 0x7FFFFFFF\n\x7d " ++ name ++ ";\n\n"
  | .flags name => "typedef " ++ typePrefix ++ "Flags " ++ name ++ "Flags;\n\n"
  | .typedef name type => "typedef " ++ type.text typePrefix ++ " " ++ name ++ ";\n"
  | .functionPointer name returns parameters =>
    "typedef " ++ returns.text typePrefix ++ " (*" ++ name ++ ")(" ++
      parameterText (parameters.map (Declarator.text typePrefix)) ++ ");\n"
  | .chainLink direction tag =>
    let name := direction.link.text typePrefix
    let qualifier := if direction = .inward then "const " else ""
    "typedef struct " ++ name ++ " \x7b\n" ++
      "    " ++ qualifier ++ "struct " ++ name ++ "* next;\n" ++
      "    " ++ tag.text typePrefix ++ " sType;\n\x7d " ++ name ++ ";\n\n"
  | .record name members =>
    "struct " ++ name ++ " \x7b\n" ++
      String.join (members.map fun m ↦ "    " ++ m.text typePrefix ++ ";\n") ++ "\x7d;\n\n"

theorem text_enumeration (typePrefix name : String) (enumerators : List Enumerator) :
    (enumeration name enumerators).text typePrefix =
      "typedef enum " ++ name ++ " \x7b\n" ++ String.join (enumerators.map Enumerator.text) ++
        "    " ++ name ++ "_Force32 = 0x7FFFFFFF\n\x7d " ++ name ++ ";\n\n" :=
  rfl

theorem text_record (typePrefix name : String) (members : List Declarator) :
    (record name members).text typePrefix =
      "struct " ++ name ++ " \x7b\n" ++
        String.join (members.map fun m ↦ "    " ++ m.text typePrefix ++ ";\n") ++ "\x7d;\n\n" :=
  rfl

end Declaration

/-- A declaration and the key it comes from. -/
structure Item where
  key : Key
  declaration : Declaration
  deriving DecidableEq, Repr

/-- The texts of declarations, one after the other. -/
def declarationText (typePrefix : String) (declarations : List Declaration) : String :=
  String.join (declarations.map (Declaration.text typePrefix))

def itemText (typePrefix : String) (items : List Item) : String :=
  declarationText typePrefix (items.map Item.declaration)

/-- A function of the interface; its stem is its name without a prefix. -/
structure Prototype where
  key : Key
  stem : String
  returns : TypeRef
  parameters : List Declarator
  deriving DecidableEq, Repr

def Prototype.parameterText (typePrefix : String) (p : Prototype) : String :=
  ApiHeader.parameterText (p.parameters.map (Declarator.text typePrefix))

end ApiHeader
