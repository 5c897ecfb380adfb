import ApiHeader.Header.Basic
import ApiHeader.Proofs.Section

/-!
# Sections by blocks

A section is gathered from blocks (`gather`), one for each of its subjects: the nodes
of the document, the keys of the catalogue, or the keys of a walk. The subjects and
their order are the same for all settings. Only a block depends on the settings, and
it is empty when its subject is left out (`keptBlock`). The lemmas whose names end in
`eq_gather` say this for each section.
-/

set_option autoImplicit false
set_option relaxedAutoImplicit false

namespace ApiHeader

/-! ### Gathering -/

/-- The blocks of the subjects, one after the other. The first failure ends it. -/
def gather {α β : Type} (block : α → Except HeaderError (List β)) :
    List α → Except HeaderError (List β)
  | [] => .ok []
  | a :: as => do
    let own ← block a
    let rest ← gather block as
    return own ++ rest

section Gather

variable {α β γ : Type} {block : α → Except HeaderError (List β)} {as : List α} {bs : List β}

theorem gather_cons (block : α → Except HeaderError (List β)) (a : α) (as : List α) :
    gather block (a :: as) =
      block a >>= fun own ↦ gather block as >>= fun rest ↦ pure (own ++ rest) :=
  rfl

theorem gather_cons_eq_ok_iff {a : α} :
    gather block (a :: as) = .ok bs ↔
      ∃ own rest, block a = .ok own ∧ gather block as = .ok rest ∧ bs = own ++ rest := by
  rw [gather_cons, bind_eq_ok_iff]
  constructor
  · rintro ⟨own, hown, h⟩
    obtain ⟨rest, hrest, h⟩ := bind_eq_ok_iff.mp h
    exact ⟨own, rest, hown, hrest, (Except.ok.inj h).symm⟩
  · rintro ⟨own, rest, hown, hrest, rfl⟩
    exact ⟨own, hown, bind_eq_ok_iff.mpr ⟨rest, hrest, rfl⟩⟩

theorem gather_append_eq_ok {more : List α} (h : gather block (as ++ more) = .ok bs) :
    ∃ front back, gather block as = .ok front ∧ gather block more = .ok back ∧
      bs = front ++ back := by
  induction as generalizing bs with
  | nil => exact ⟨[], bs, rfl, h, rfl⟩
  | cons a as ih =>
    obtain ⟨own, rest, hown, hrest, rfl⟩ := gather_cons_eq_ok_iff.mp h
    obtain ⟨front, back, hfront, hback, rfl⟩ := ih hrest
    exact ⟨own ++ front, back, gather_cons_eq_ok_iff.mpr ⟨own, front, hown, hfront, rfl⟩, hback,
      (List.append_assoc own front back).symm⟩

theorem mem_gather_iff (h : gather block as = .ok bs) {b : β} :
    b ∈ bs ↔ ∃ a ∈ as, ∃ own, block a = .ok own ∧ b ∈ own := by
  induction as generalizing bs with
  | nil =>
    obtain rfl : [] = bs := Except.ok.inj h
    simp
  | cons a as ih =>
    obtain ⟨own, rest, hown, hrest, rfl⟩ := gather_cons_eq_ok_iff.mp h
    rw [List.mem_append, ih hrest, List.exists_mem_cons_iff, hown]
    simp

theorem gather_congr {other : α → Except HeaderError (List β)}
    (h : ∀ a ∈ as, block a = other a) : gather block as = gather other as := by
  induction as with
  | nil => rfl
  | cons a as ih =>
    rw [gather_cons, gather_cons, h a List.mem_cons_self,
      ih fun b hb ↦ h b (List.mem_cons_of_mem a hb)]

/-- Blocks of one member each. -/
theorem mapM_eq_gather (f : α → Except HeaderError β) (as : List α) :
    as.mapM f = gather (fun a ↦ f a >>= fun b ↦ pure [b]) as := by
  induction as with
  | nil => rfl
  | cons a as ih =>
    rw [List.mapM_cons, gather_cons, ih]
    simp only [bind_assoc, pure_bind, List.singleton_append]

theorem mem_mapM_iff {f : α → Except HeaderError β} {as : List α} {bs : List β}
    (h : as.mapM f = .ok bs) {b : β} : b ∈ bs ↔ ∃ a ∈ as, f a = .ok b := by
  rw [mapM_eq_gather] at h
  rw [mem_gather_iff h]
  refine exists_congr fun a ↦ and_congr_right fun _ ↦ ⟨?_, fun hb ↦ ?_⟩
  · rintro ⟨own, hown, hmem⟩
    obtain ⟨only, honly, hown⟩ := bind_eq_ok_iff.mp hown
    obtain rfl := Except.ok.inj hown
    obtain rfl := List.mem_singleton.mp hmem
    exact honly
  · exact ⟨[b], bind_eq_ok_iff.mpr ⟨b, hb, rfl⟩, List.mem_singleton_self b⟩

theorem flatten_mapM_eq_gather (block : α → Except HeaderError (List β)) (as : List α) :
    (as.mapM block >>= fun blocks ↦ pure blocks.flatten) = gather block as := by
  induction as with
  | nil => rfl
  | cons a as ih =>
    rw [List.mapM_cons, gather_cons, ← ih]
    simp only [bind_assoc, pure_bind, List.flatten_cons]

theorem ok_flatMap_eq_gather (g : α → List β) (as : List α) :
    .ok (as.flatMap g) = gather (fun a ↦ .ok (g a)) as := by
  induction as with
  | nil => rfl
  | cons a as ih =>
    rw [gather_cons, ← ih]
    rfl

theorem gather_filterMap (block : α → Except HeaderError (List β)) (select : γ → Option α)
    (cs : List γ) :
    gather block (cs.filterMap select) = gather (fun c ↦ (select c).elim (.ok []) block) cs := by
  induction cs with
  | nil => rfl
  | cons c cs ih =>
    rw [gather_cons, ← ih]
    cases hselect : select c with
    | none =>
      rw [List.filterMap_cons_none hselect]
      exact (bind_pure _).symm
    | some a => rw [List.filterMap_cons_some hselect, gather_cons, Option.elim_some]

theorem gather_filter (block : α → Except HeaderError (List β)) (p : α → Bool) (as : List α) :
    gather block (as.filter p) = gather (fun a ↦ if p a then block a else .ok []) as := by
  induction as with
  | nil => rfl
  | cons a as ih =>
    rw [gather_cons, ← ih]
    by_cases hp : p a = true
    · rw [List.filter_cons_of_pos hp, gather_cons, if_pos hp]
    · rw [List.filter_cons_of_neg hp, if_neg hp]
      exact (bind_pure _).symm

theorem result_collect_eq_gather (f : α → Logged (Option β)) (as : List α) :
    (Logged.collect f as).result =
      gather (fun a ↦ (f a).result >>= fun b ↦ pure b.toList) as := by
  induction as with
  | nil => rfl
  | cons a as ih =>
    rw [Logged.result_collect_cons, gather_cons, ih]
    simp only [bind_assoc, pure_bind]

end Gather

/-! ### Blocks -/

/-- A block for something with these tags: it is empty when that is left out. -/
def keptBlock {β : Type} (settings : Settings) (tags : List Tag)
    (block : Except HeaderError (List β)) : Except HeaderError (List β) :=
  if settings.keeps tags then block else .ok []

/-- A block with members is that of something that is kept. -/
theorem kept_of_mem_keptBlock {β : Type} {settings : Settings} {tags : List Tag}
    {block : Except HeaderError (List β)} {own : List β}
    (h : keptBlock settings tags block = .ok own) {b : β} (hb : b ∈ own) :
    settings.keeps tags = true ∧ block = .ok own := by
  rw [keptBlock] at h
  split at h
  · rename_i hkeeps
    exact ⟨hkeeps, h⟩
  · obtain rfl : [] = own := Except.ok.inj h
    cases hb

namespace Schema

variable (schema : Schema) (settings : Settings)

/-- The block of a node: its declarations under its key. -/
def itemBlock (key : Key) (node : Node) (own : Except HeaderError (List Declaration)) :
    Except HeaderError (List Item) :=
  keptBlock settings node.tags do
    let declarations ← own
    return declarations.map (⟨key, ·⟩)

/-- The block of a key of the catalogue. -/
def typeBlock (own : DeclaredType → Except HeaderError (List Declaration)) (key : Key) :
    Except HeaderError (List Item) :=
  match schema.type? key with
  | some type => itemBlock settings type.key type.node (own type)
  | none => .ok []

def handleDeclarations (type : DeclaredType) : List Declaration :=
  match type.node with
  | .object _ => [.handle type.name]
  | _ => []

def forwardDeclarations (type : DeclaredType) : List Declaration :=
  if type.node.record?.isSome then [.forward type.name] else []

def enumerationDeclarations (type : DeclaredType) : List Declaration :=
  match type.node with
  | .enumeration e => [.enumeration type.name (enumerators settings type.name e.items)]
  | .bitmask e => [.enumeration type.name (enumerators settings type.name e.items),
      .flags type.name]
  | _ => []

/-- The one declaration of a type, or none. -/
def optionalDeclaration (declaration : DeclaredType → Except HeaderError (Option Declaration))
    (type : DeclaredType) : Except HeaderError (List Declaration) := do
  let declaration ← declaration type
  return declaration.toList

def constantDeclarations (declared : Key × Node) : Except HeaderError (List Declaration) :=
  match declared.2 with
  | .constant constant => do
    let item ← schema.constantItem settings declared.1 constant
    return [item.declaration]
  | _ => .ok []

/-- The prototype of a signature; `front` are the parameters before its arguments. -/
def signaturePrototype (key : Key) (stem context : String) (front : List Declarator)
    (returns : Option String) (arguments : List Member) : Except HeaderError Prototype := do
  let returns ← schema.returnType returns context
  let parameters ← schema.declarators context (settings.keptMembers arguments)
  return ⟨key, stem, returns, front ++ parameters⟩

def functionBlock (declared : Key × Node) : Except HeaderError (List Prototype) :=
  match declared.2 with
  | .function signature => do
    let prototype ← schema.signaturePrototype settings declared.1 (Text.pascalCase declared.1)
      declared.1 [] signature.returns signature.arguments
    return [prototype]
  | _ => .ok []

/-- The object of a method as a parameter. -/
def receiver (key : Key) (handle : TypeName) : Declarator :=
  ⟨⟨handle, none⟩, Text.camelCase key⟩

def methodBlock (key : Key) (handle : TypeName) (method : Method) :
    Except HeaderError (List Prototype) := do
  let prototype ← schema.signaturePrototype settings key
    (Text.pascalCase key ++ Text.pascalCase method.name) (key ++ "." ++ method.name)
    [receiver key handle] method.returns method.arguments
  return [prototype]

def objectBlock (declared : Key × Node) : Except HeaderError (List Prototype) :=
  match declared.2 with
  | .object object => schema.objectPrototypes settings declared.1 object
  | _ => .ok []

/-! ### The sections -/

/-- A section of the types that are kept, in the order of the catalogue. -/
theorem ok_flatMap_keptTypes (own : DeclaredType → List Declaration) :
    .ok ((schema.keptTypes settings).flatMap fun type ↦ (own type).map (⟨type.key, ·⟩)) =
      gather (schema.typeBlock settings fun type ↦ .ok (own type)) schema.catalogue.keys := by
  rw [ok_flatMap_eq_gather, keptTypes, gather_filter, gather_filterMap]
  refine gather_congr fun key _ ↦ ?_
  rw [typeBlock]
  cases schema.type? key <;> rfl

theorem handles_eq_gather :
    .ok (schema.handles settings) =
      gather (schema.typeBlock settings fun type ↦ .ok (handleDeclarations type))
        schema.catalogue.keys := by
  rw [← ok_flatMap_keptTypes, handles, List.filterMap_eq_flatMap_toList]
  congr 2
  funext type
  rw [handleDeclarations]
  cases type.node <;> rfl

theorem forwards_eq_gather :
    .ok (schema.forwards settings) =
      gather (schema.typeBlock settings fun type ↦ .ok (forwardDeclarations type))
        schema.catalogue.keys := by
  rw [← ok_flatMap_keptTypes, forwards, List.filterMap_eq_flatMap_toList]
  congr 2
  funext type
  rw [forwardDeclarations]
  split <;> rfl

theorem enumerations_eq_gather :
    .ok (schema.enumerations settings) =
      gather (schema.typeBlock settings fun type ↦ .ok (enumerationDeclarations settings type))
        schema.catalogue.keys := by
  rw [← ok_flatMap_keptTypes, enumerations]
  congr 2
  funext type
  rw [enumerationItems, enumerationDeclarations]
  cases type.node <;> rfl

theorem result_collect_declaredItem (skipped : Key → Event)
    (declaration : DeclaredType → Except HeaderError (Option Declaration)) (keys : List Key) :
    (Logged.collect (schema.declaredItem settings skipped declaration) keys).result =
      gather (schema.typeBlock settings (optionalDeclaration declaration)) keys := by
  rw [result_collect_eq_gather]
  refine gather_congr fun key _ ↦ ?_
  rw [declaredItem, typeBlock]
  cases schema.type? key with
  | none => rfl
  | some type =>
    simp only [result_keptItem, itemBlock, keptBlock]
    split
    · simp only [optionalDeclaration, bind_assoc, pure_bind, Option.toList_map]
    · rfl

/-- A section that follows a walk has the blocks of the keys of the walk. -/
theorem declare_eq_gather {nodes : List Key} {needs : Key → List Key} {skipped : Key → Event}
    {declaration : DeclaredType → Except HeaderError (Option Declaration)} {items : List Item} :
    ((Walk.all nodes needs).declare
        (schema.declaredItem settings skipped declaration)).result = .ok items ↔
      (Walk.all nodes needs).cycle = none ∧
        gather (schema.typeBlock settings (optionalDeclaration declaration))
          (Walk.all nodes needs).order = .ok items := by
  rw [Walk.declare_eq_ok_iff, result_collect_declaredItem]

theorem gather_keptNodes {α β : Type} (block : α → Except HeaderError (List β))
    (select : Key × Node → Option α) :
    gather block ((schema.keptNodes settings).filterMap select) =
      gather (fun declared ↦ keptBlock settings declared.2.tags
        ((select declared).elim (.ok []) block)) schema.document.entries := by
  rw [gather_filterMap, keptNodes, gather_filter]
  rfl

theorem constants_eq_gather :
    schema.constants settings =
      gather (fun declared ↦ itemBlock settings declared.1 declared.2
        (schema.constantDeclarations settings declared)) schema.document.entries := by
  rw [constants, mapM_eq_gather, keptConstants, gather_keptNodes]
  refine gather_congr fun declared _ ↦ ?_
  obtain ⟨key, node⟩ := declared
  rw [itemBlock]
  congr 1
  cases node with
  | constant constant =>
    simp only [constantDeclarations, constantItem, Option.elim_some]
    cases constant.value with
    | number text => simp only [bind_assoc, pure_bind, List.map_singleton]
    | verbatim text => rfl
  | _ => rfl

theorem objectPrototypes_eq_gather (key : Key) (object : Object) :
    schema.objectPrototypes settings key object =
      schema.resolve key key >>= fun handle ↦
        gather (fun method ↦ keptBlock settings method.tags
          (schema.methodBlock settings key handle method)) object.methods := by
  rw [objectPrototypes]
  congr 1
  funext handle
  rw [mapM_eq_gather, gather_filter]
  rfl

theorem prototypes_eq_gather :
    schema.prototypes settings =
      gather (fun declared ↦ keptBlock settings declared.2.tags
          (schema.functionBlock settings declared)) schema.document.entries >>= fun functions ↦
        gather (fun declared ↦ keptBlock settings declared.2.tags
            (schema.objectBlock settings declared)) schema.document.entries >>= fun methods ↦
          pure (functions ++ methods) := by
  have hprototypes : schema.prototypes settings = (do
      let functions ← (schema.keptFunctions settings).mapM fun declared ↦
        schema.functionPrototype settings declared.1 declared.2
      let methods ← (schema.keptObjects settings).mapM fun declared ↦
        schema.objectPrototypes settings declared.1 declared.2
      return functions ++ methods.flatten) := rfl
  have hfunctions : (schema.keptFunctions settings).mapM (fun declared ↦
      schema.functionPrototype settings declared.1 declared.2) =
        gather (fun declared ↦ keptBlock settings declared.2.tags
          (schema.functionBlock settings declared)) schema.document.entries := by
    rw [mapM_eq_gather, keptFunctions, gather_keptNodes]
    refine gather_congr fun declared _ ↦ ?_
    obtain ⟨key, node⟩ := declared
    cases node <;> rfl
  have hmethods : ((schema.keptObjects settings).mapM (fun declared ↦
      schema.objectPrototypes settings declared.1 declared.2) >>= fun blocks ↦
        pure blocks.flatten) =
        gather (fun declared ↦ keptBlock settings declared.2.tags
          (schema.objectBlock settings declared)) schema.document.entries := by
    rw [flatten_mapM_eq_gather, keptObjects, gather_keptNodes]
    refine gather_congr fun declared _ ↦ ?_
    obtain ⟨key, node⟩ := declared
    cases node <;> rfl
  rw [hprototypes, hfunctions, ← hmethods]
  simp only [bind_assoc, pure_bind]

/-! ### Members of sections -/

variable {schema settings}

theorem signaturePrototype_eq_ok_iff {key : Key} {stem context : String}
    {front : List Declarator} {returns : Option String} {arguments : List Member}
    {prototype : Prototype} :
    schema.signaturePrototype settings key stem context front returns arguments = .ok prototype ↔
      ∃ result parameters, schema.returnType returns context = .ok result ∧
        schema.declarators context (settings.keptMembers arguments) = .ok parameters ∧
        prototype = ⟨key, stem, result, front ++ parameters⟩ := by
  rw [signaturePrototype, bind_eq_ok_iff]
  constructor
  · rintro ⟨result, hresult, h⟩
    obtain ⟨parameters, hparameters, h⟩ := bind_eq_ok_iff.mp h
    exact ⟨result, parameters, hresult, hparameters, (Except.ok.inj h).symm⟩
  · rintro ⟨result, parameters, hresult, hparameters, rfl⟩
    exact ⟨result, hresult, bind_eq_ok_iff.mpr ⟨parameters, hparameters, rfl⟩⟩

theorem constantItem_eq_ok {key : Key} {constant : Constant} {item : Item}
    (h : schema.constantItem settings key constant = .ok item) :
    ∃ type value, item = ⟨key, .constant (constantName settings key) type value⟩ := by
  rw [constantItem] at h
  cases hvalue : constant.value with
  | number text =>
    rw [hvalue] at h
    obtain ⟨type, -, h⟩ := bind_eq_ok_iff.mp h
    exact ⟨_, _, (Except.ok.inj h).symm⟩
  | verbatim text =>
    rw [hvalue] at h
    exact ⟨_, _, (Except.ok.inj h).symm⟩

/-- The constants of a header are macros, for constants of the document. -/
theorem constant_of_mem_constants {items : List Item}
    (hok : schema.constants settings = .ok items) {item : Item} (hitem : item ∈ items) :
    (∃ constant, schema.document.get? item.key = some (.constant constant)) ∧
      ∃ name type value, item.declaration = .constant name type value := by
  obtain ⟨⟨key, constant⟩, hconstant, hown⟩ := (mem_mapM_iff hok).mp hitem
  obtain ⟨type, value, rfl⟩ := constantItem_eq_ok hown
  obtain ⟨⟨_, node⟩, hdeclared, hnode⟩ := List.mem_filterMap.mp hconstant
  refine ⟨⟨constant, ?_⟩, _, type, value, rfl⟩
  cases node with
  | constant other =>
    obtain ⟨rfl, rfl⟩ := Prod.mk.inj (Option.some.inj hnode)
    exact Table.get?_eq_some_iff.mpr (List.mem_filter.mp hdeclared).1
  | _ => cases hnode

/-- The prototype comes from a function of the document. -/
def FromFunction (schema : Schema) (settings : Settings) (prototype : Prototype) : Prop :=
  ∃ signature, schema.document.get? prototype.key = some (.function signature) ∧
    schema.signaturePrototype settings prototype.key (Text.pascalCase prototype.key) prototype.key
      [] signature.returns signature.arguments = .ok prototype

/-- The prototype comes from a method of an object of the document. -/
def FromMethod (schema : Schema) (settings : Settings) (object : Object) (method : Method)
    (prototype : Prototype) : Prop :=
  method ∈ object.methods ∧ ∃ handle, schema.resolve prototype.key prototype.key = .ok handle ∧
    schema.signaturePrototype settings prototype.key
      (Text.pascalCase prototype.key ++ Text.pascalCase method.name)
      (prototype.key ++ "." ++ method.name) [receiver prototype.key handle] method.returns
      method.arguments = .ok prototype

theorem fromMethod_of_mem_objectPrototypes {key : Key} {object : Object}
    {prototypes : List Prototype}
    (hok : schema.objectPrototypes settings key object = .ok prototypes) {prototype : Prototype}
    (hmem : prototype ∈ prototypes) :
    prototype.key = key ∧ ∃ method, schema.FromMethod settings object method prototype := by
  rw [objectPrototypes_eq_gather] at hok
  obtain ⟨handle, hhandle, hgather⟩ := bind_eq_ok_iff.mp hok
  obtain ⟨method, hmethod, own, hown, hmem⟩ := (mem_gather_iff hgather).mp hmem
  obtain ⟨-, hown⟩ := kept_of_mem_keptBlock hown hmem
  obtain ⟨only, honly, hown⟩ := bind_eq_ok_iff.mp hown
  obtain rfl := Except.ok.inj hown
  obtain rfl := List.mem_singleton.mp hmem
  obtain ⟨result, parameters, -, -, rfl⟩ := signaturePrototype_eq_ok_iff.mp honly
  exact ⟨rfl, method, hmethod, handle, hhandle, honly⟩

theorem function_of_mem_functionBlock {declared : Key × Node} {own : List Prototype}
    (hok : schema.functionBlock settings declared = .ok own) {prototype : Prototype}
    (hmem : prototype ∈ own) :
    prototype.key = declared.1 ∧ ∃ signature, declared.2 = .function signature ∧
      schema.signaturePrototype settings prototype.key (Text.pascalCase prototype.key)
        prototype.key [] signature.returns signature.arguments = .ok prototype := by
  obtain ⟨key, node⟩ := declared
  cases node with
  | function signature =>
    obtain ⟨only, honly, hown⟩ := bind_eq_ok_iff.mp hok
    obtain rfl := Except.ok.inj hown
    obtain rfl := List.mem_singleton.mp hmem
    obtain ⟨result, parameters, -, -, rfl⟩ := signaturePrototype_eq_ok_iff.mp honly
    exact ⟨rfl, signature, rfl, honly⟩
  | _ =>
    obtain rfl : [] = own := Except.ok.inj hok
    cases hmem

theorem method_of_mem_objectBlock {declared : Key × Node} {own : List Prototype}
    (hok : schema.objectBlock settings declared = .ok own) {prototype : Prototype}
    (hmem : prototype ∈ own) :
    prototype.key = declared.1 ∧ ∃ object method, declared.2 = .object object ∧
      schema.FromMethod settings object method prototype := by
  obtain ⟨key, node⟩ := declared
  cases node with
  | object object =>
    obtain ⟨hkey, method, hfrom⟩ := fromMethod_of_mem_objectPrototypes hok hmem
    exact ⟨hkey, object, method, rfl, hfrom⟩
  | _ =>
    obtain rfl : [] = own := Except.ok.inj hok
    cases hmem

/-- A prototype of a header comes from a function or a method of the document. -/
theorem from_of_mem_prototypes {prototypes : List Prototype}
    (hok : schema.prototypes settings = .ok prototypes) {prototype : Prototype}
    (hmem : prototype ∈ prototypes) :
    schema.FromFunction settings prototype ∨ ∃ object method,
      schema.document.get? prototype.key = some (.object object) ∧
        schema.FromMethod settings object method prototype := by
  rw [prototypes_eq_gather] at hok
  obtain ⟨functions, hfunctions, hok⟩ := bind_eq_ok_iff.mp hok
  obtain ⟨methods, hmethods, hok⟩ := bind_eq_ok_iff.mp hok
  obtain rfl := Except.ok.inj hok
  rcases List.mem_append.mp hmem with hmem | hmem
  · obtain ⟨⟨_, node⟩, hdeclared, own, hown, hmem⟩ := (mem_gather_iff hfunctions).mp hmem
    obtain ⟨-, hown⟩ := kept_of_mem_keptBlock hown hmem
    obtain ⟨rfl, signature, rfl, hprototype⟩ := function_of_mem_functionBlock hown hmem
    exact .inl ⟨signature, Table.get?_eq_some_iff.mpr hdeclared, hprototype⟩
  · obtain ⟨⟨_, node⟩, hdeclared, own, hown, hmem⟩ := (mem_gather_iff hmethods).mp hmem
    obtain ⟨-, hown⟩ := kept_of_mem_keptBlock hown hmem
    obtain ⟨rfl, object, method, rfl, hfrom⟩ := method_of_mem_objectBlock hown hmem
    exact .inr ⟨object, method, Table.get?_eq_some_iff.mpr hdeclared, hfrom⟩

end Schema

end ApiHeader
