import ApiHeader.Header.Declaration
import ApiHeader.Logged
import ApiHeader.Order
import ApiHeader.Settings

/-!
# The sections of a header

Whatever carries no excluded tag goes into a header. The type names of a description
are resolved to C types: primitives come first, then the types of the catalogue, then
what the document declares to be foreign; any other name is an error that tells where
it was used.

Constants, handles, records before their members are known, and enumerations stand in
the order of the document, as none of these needs another declaration of its section.
Aliases, and records with their members, stand in the order of need: a declaration
follows those it needs. Their keys come from a walk, and a walk that met a cycle ends
in an error after the declarations it finished. The functions of an interface are the
free ones and then the methods of its objects, both in the order of the document.
-/

set_option autoImplicit false
set_option relaxedAutoImplicit false

namespace ApiHeader

/-! ### Selection -/

/-- Whether something with these tags goes into the header. -/
def Settings.keeps (settings : Settings) (tags : List Tag) : Bool :=
  ! settings.exclusion.excludes tags

def Settings.keptMembers (settings : Settings) (members : List Member) : List Member :=
  members.filter fun m ↦ settings.keeps m.tags

/-- The nodes that are kept, in the order of the document. -/
def Schema.keptNodes (schema : Schema) (settings : Settings) : List (Key × Node) :=
  schema.document.entries.filter fun (_, node) ↦ settings.keeps node.tags

/-- A type of the catalogue with its node. -/
structure DeclaredType where
  key : Key
  name : String
  node : Node
  deriving DecidableEq, Repr

def Schema.type? (schema : Schema) (key : Key) : Option DeclaredType := do
  let entry ← schema.catalogue.get? key
  let node ← schema.document.get? key
  return ⟨key, entry.name, node⟩

/-- The types of the catalogue that are kept, in order. -/
def Schema.keptTypes (schema : Schema) (settings : Settings) : List DeclaredType :=
  (schema.catalogue.keys.filterMap schema.type?).filter fun t ↦ settings.keeps t.node.tags

end ApiHeader

namespace ApiHeader.Schema

/-! ### Resolving type names -/

/-- What a type name stands for; `context` is where it is used. -/
def resolve (schema : Schema) (type context : String) : Except HeaderError TypeName :=
  match Primitive.ofName? type with
  | some primitive => .ok (.primitive primitive)
  | none =>
    match schema.catalogue.get? type with
    | some entry => .ok (.declared entry.name)
    | none =>
      match (schema.document.get? type).map Node.category with
      | some .native | some .other => .ok (.foreign type)
      | _ => .error (.unresolved type context)

def typeRef (schema : Schema) (type : String) (indirection : Option Indirection)
    (context : String) : Except HeaderError TypeRef := do
  let name ← schema.resolve type context
  return ⟨name, indirection⟩

/-- A function that gives nothing back is of type `void`. -/
def returnType (schema : Schema) (returns : Option String) (context : String) :
    Except HeaderError TypeRef :=
  match returns with
  | some type => schema.typeRef type none context
  | none => .ok ⟨.primitive .void, none⟩

def declarator (schema : Schema) (owner : String) (member : Member) :
    Except HeaderError Declarator := do
  let type ← schema.typeRef member.type member.indirection (owner ++ "." ++ member.name)
  return ⟨type, Text.camelCase member.name⟩

def declarators (schema : Schema) (owner : String) (members : List Member) :
    Except HeaderError (List Declarator) :=
  members.mapM (schema.declarator owner)

/-! ### Sections in the order of the document -/

variable (schema : Schema) (settings : Settings)

def constantName (key : Key) : String :=
  settings.upperPrefix ++ "_" ++ Text.constantCase key

/-- The macro of a constant; a verbatim value needs no type. -/
def constantItem (key : Key) (constant : Constant) : Except HeaderError Item :=
  let name := constantName settings key
  match constant.value with
  | .number text => do
    let type ← schema.resolve constant.type key
    return ⟨key, .constant name (some type) text⟩
  | .verbatim text => return ⟨key, .constant name none text⟩

def keptConstants : List (Key × Constant) :=
  (schema.keptNodes settings).filterMap fun (key, node) ↦
    match node with
    | .constant constant => some (key, constant)
    | _ => none

def constants : Except HeaderError (List Item) :=
  (schema.keptConstants settings).mapM fun (key, constant) ↦
    schema.constantItem settings key constant

def handles : List Item :=
  (schema.keptTypes settings).filterMap fun type ↦
    match type.node with
    | .object _ => some ⟨type.key, .handle type.name⟩
    | _ => none

def forwards : List Item :=
  (schema.keptTypes settings).filterMap fun type ↦
    if type.node.record?.isSome then some ⟨type.key, .forward type.name⟩ else none

/-- Items with their numbers: the one given, or one more than the item before. -/
def numberItems (next : UInt64) : List EnumItem → List (EnumItem × UInt64)
  | [] => []
  | item :: items =>
    let number := item.number.getD next
    (item, number) :: numberItems (number + 1) items

/-- Items that are left out count for the numbers of those after them. -/
def enumerators (name : String) (items : List EnumItem) : List Enumerator :=
  ((numberItems 0 items).filter fun (item, _) ↦ settings.keeps item.tags).map
    fun (item, number) ↦ ⟨name ++ "_" ++ Text.valueCase item.name, number⟩

def enumerationItems (type : DeclaredType) : List Item :=
  match type.node with
  | .enumeration e => [⟨type.key, .enumeration type.name (enumerators settings type.name e.items)⟩]
  | .bitmask e =>
    [⟨type.key, .enumeration type.name (enumerators settings type.name e.items)⟩,
      ⟨type.key, .flags type.name⟩]
  | _ => []

def enumerations : List Item :=
  (schema.keptTypes settings).flatMap (enumerationItems settings)

end ApiHeader.Schema

namespace ApiHeader

/-! ### Sections in the order of need -/

/-- Declares the keys of a walk in its order; then fails if the walk met a cycle. -/
def Walk.declare (walk : Walk) (item : Key → Logged (Option Item)) : Logged (List Item) := do
  let items ← Logged.collect item walk.order
  match walk.cycle with
  | some path => .lift (.error (.cyclic path))
  | none => return items

namespace Schema

variable (schema : Schema) (settings : Settings)

/-- The declaration of a type of the catalogue if it is kept, and else the event. -/
def keptItem (skipped : Event) (type : DeclaredType)
    (declaration : Except HeaderError (Option Declaration)) : Logged (Option Item) :=
  if settings.keeps type.node.tags then
    .lift do
      let declaration ← declaration
      return declaration.map (⟨type.key, ·⟩)
  else do
    Logged.note skipped
    return none

/-- The declaration of a name for a type or for a pointer to a function. -/
def aliasDeclaration (type : DeclaredType) : Except HeaderError (Option Declaration) :=
  match type.node with
  | .typedef typedef => do
    let target ← schema.typeRef typedef.target typedef.indirection type.key
    return some (.typedef type.name target)
  | .functionPointer signature | .callback signature => do
    let returns ← schema.returnType signature.returns type.key
    let parameters ← schema.declarators type.key (settings.keptMembers signature.arguments)
    return some (.functionPointer type.name returns parameters)
  | _ => return none

def aliasItem (key : Key) : Logged (Option Item) :=
  match schema.type? key with
  | some type =>
    keptItem settings (.aliasExcluded key) type (schema.aliasDeclaration settings type)
  | none => return none

/-- The aliases, each after the aliases it mentions. -/
def aliases : Logged (List Item) :=
  schema.aliasWalk.declare (schema.aliasItem settings)

/-- The key of the enumeration that tells kinds of links apart. -/
def chainTagKey : Key := "s type"

def chainTag : Logged TypeName :=
  match schema.catalogue.get? chainTagKey with
  | some entry => return .declared entry.name
  | none => do
    Logged.note .noChainTag
    return .primitive .uint32

/-- The two kinds of links. -/
def chainLinks : Logged (List Declaration) := do
  let tag ← schema.chainTag
  return [.chainLink .inward tag, .chainLink .outward tag]

/-- The member by which a record starts a chain or is part of one. -/
def chainMember (record : Record) : List Declarator :=
  match record.extensible, record.chained with
  | some .inward, _ => [⟨⟨.primitive .chainedStruct, some .constPointer⟩, "nextInChain"⟩]
  | some .outward, _ => [⟨⟨.primitive .chainedStructOut, some .pointer⟩, "nextInChain"⟩]
  | none, some direction => [⟨⟨.primitive direction.link, none⟩, "chain"⟩]
  | none, none => []

def recordDeclaration (type : DeclaredType) : Except HeaderError (Option Declaration) :=
  match type.node.record? with
  | some record => do
    let members ← schema.declarators type.key (settings.keptMembers record.members)
    return some (.record type.name (chainMember record ++ members))
  | none => return none

def recordItem (key : Key) : Logged (Option Item) :=
  match schema.type? key with
  | some type =>
    keptItem settings (.recordExcluded key) type (schema.recordDeclaration settings type)
  | none => return none

/-- The records with their members, each after the records it holds by value. -/
def records : Logged (List Item) :=
  schema.recordWalk.declare (schema.recordItem settings)

end Schema

end ApiHeader

namespace ApiHeader.Schema

/-! ### Functions -/

variable (schema : Schema) (settings : Settings)

def functionPrototype (key : Key) (signature : Signature) : Except HeaderError Prototype := do
  let returns ← schema.returnType signature.returns key
  let parameters ← schema.declarators key (settings.keptMembers signature.arguments)
  return ⟨key, Text.pascalCase key, returns, parameters⟩

def keptFunctions : List (Key × Signature) :=
  (schema.keptNodes settings).filterMap fun (key, node) ↦
    match node with
    | .function signature => some (key, signature)
    | _ => none

/-- A method takes its object as its first parameter. -/
def methodPrototype (key : Key) (handle : TypeName) (method : Method) :
    Except HeaderError Prototype := do
  let context := key ++ "." ++ method.name
  let returns ← schema.returnType method.returns context
  let parameters ← schema.declarators context (settings.keptMembers method.arguments)
  let receiver : Declarator := ⟨⟨handle, none⟩, Text.camelCase key⟩
  return ⟨key, Text.pascalCase key ++ Text.pascalCase method.name, returns,
    receiver :: parameters⟩

def objectPrototypes (key : Key) (object : Object) : Except HeaderError (List Prototype) := do
  let handle ← schema.resolve key key
  (object.methods.filter fun m ↦ settings.keeps m.tags).mapM
    (schema.methodPrototype settings key handle)

def keptObjects : List (Key × Object) :=
  (schema.keptNodes settings).filterMap fun (key, node) ↦
    match node with
    | .object object => some (key, object)
    | _ => none

def prototypes : Except HeaderError (List Prototype) := do
  let functions ← (schema.keptFunctions settings).mapM fun (key, signature) ↦
    schema.functionPrototype settings key signature
  let methods ← (schema.keptObjects settings).mapM fun (key, object) ↦
    schema.objectPrototypes settings key object
  return functions ++ methods.flatten

end ApiHeader.Schema

namespace ApiHeader.Settings

variable (settings : Settings)

/-- The exported declarations of functions. -/
def exportText (prototypes : List Prototype) : String :=
  String.join (prototypes.map fun p ↦
    settings.exportName ++ " " ++ p.returns.text settings.typePrefix ++ " " ++
      settings.functionPrefix ++ p.stem ++ "(" ++ p.parameterText settings.typePrefix ++ ");\n")

/-- The types of pointers to the functions, which a user of the header may skip. -/
def procText (prototypes : List Prototype) : String :=
  let guard := "!defined(" ++ settings.upperPrefix ++ "_SKIP_PROCS)"
  "#if " ++ guard ++ "\n\n" ++
    String.join (prototypes.map fun p ↦
      "typedef " ++ p.returns.text settings.typePrefix ++ " (*" ++ settings.typePrefix ++
        "Proc" ++ p.stem ++ ")(" ++ p.parameterText settings.typePrefix ++ ");\n") ++
    "\n#endif  // " ++ guard ++ "\n\n"

end ApiHeader.Settings
