import ApiHeader.Proofs.AliasOrder
import ApiHeader.Proofs.Blocks
import ApiHeader.Proofs.Success

/-!
# Schemas that differ in names

Two headers of one document whose settings exclude the same tags. They differ in names,
and `Alike` compares the two runs up to names: both fail in the same way, or both give
values with the same view. All that is looked up is looked up by key, so it is enough
that the two schemas have the same keys and categories (`Schema.Respelled`). Their
sections are alike, from the resolving of a name up to the header, whose `outline` has
the keys of all sections (`Respelled.header`).
-/

set_option autoImplicit false
set_option relaxedAutoImplicit false

namespace ApiHeader

/-! ### Runs that are alike -/

/-- Both results are the same failure, or values with the same view. -/
def Alike {α γ : Type} (view : α → γ) (x y : Except HeaderError α) : Prop :=
  x.map view = y.map view

namespace Alike

variable {α β γ δ : Type} {view : α → γ} {x y : Except HeaderError α}

theorem ok {a b : α} (h : view a = view b) : Alike view (.ok a) (.ok b) :=
  congrArg Except.ok h

theorem view_eq {a b : α} (h : Alike view (.ok a) (.ok b)) : view a = view b :=
  Except.ok.inj h

theorem cases (h : Alike view x y) : (∃ e, x = .error e ∧ y = .error e) ∨
    ∃ a b, x = .ok a ∧ y = .ok b ∧ view a = view b := by
  cases x with
  | error e =>
    cases y with
    | error other =>
      obtain rfl := Except.error.inj h
      exact .inl ⟨e, rfl, rfl⟩
    | ok b => cases h
  | ok a =>
    cases y with
    | error other => cases h
    | ok b => exact .inr ⟨a, b, rfl, rfl, h.view_eq⟩

theorem bind {f g : α → Except HeaderError β} {look : β → δ} (h : Alike view x y)
    (hrest : ∀ a b, view a = view b → Alike look (f a) (g b)) :
    Alike look (x >>= f) (y >>= g) := by
  obtain ⟨e, rfl, rfl⟩ | ⟨a, b, rfl, rfl, hview⟩ := h.cases
  · rfl
  · exact hrest a b hview

theorem map {f g : α → β} {look : β → δ} (h : Alike view x y)
    (hlook : ∀ a b, view a = view b → look (f a) = look (g b)) :
    Alike look (x >>= fun a ↦ pure (f a)) (y >>= fun b ↦ pure (g b)) :=
  h.bind fun a b hview ↦ ok (hlook a b hview)

theorem gather {block other : β → Except HeaderError (List α)} {bs : List β}
    (h : ∀ b ∈ bs, Alike (List.map view) (block b) (other b)) :
    Alike (List.map view) (gather block bs) (ApiHeader.gather other bs) := by
  induction bs with
  | nil => rfl
  | cons b bs ih =>
    rw [gather_cons, gather_cons]
    refine (h b List.mem_cons_self).bind fun own own' hown ↦
      (ih fun c hc ↦ h c (List.mem_cons_of_mem b hc)).map fun rest rest' hrest ↦ ?_
    rw [List.map_append, List.map_append, hown, hrest]

theorem mapM {f g : β → Except HeaderError α} {bs : List β} (h : ∀ b, Alike view (f b) (g b)) :
    Alike (List.map view) (bs.mapM f) (bs.mapM g) := by
  rw [mapM_eq_gather, mapM_eq_gather]
  refine gather fun b _ ↦ (h b).map fun a a' hview ↦ ?_
  rw [List.map_singleton, List.map_singleton, hview]

end Alike

/-! ### Outlines -/

/-- What of a prototype is the same for all prefixes: its key and the rest of its name. -/
def Prototype.identity (prototype : Prototype) : Key × String :=
  (prototype.key, prototype.stem)

/-- The keys of the sections of a header, in order. -/
structure Outline where
  constants : List Key
  handles : List Key
  forwards : List Key
  enumerations : List Key
  aliases : List Key
  records : List Key
  prototypes : List (Key × String)
  deriving DecidableEq

def Header.outline (header : Header) : Outline where
  constants := header.constants.map Item.key
  handles := header.handles.map Item.key
  forwards := header.forwards.map Item.key
  enumerations := header.enumerations.map Item.key
  aliases := header.aliases.map Item.key
  records := header.records.map Item.key
  prototypes := header.prototypes.map Prototype.identity

/-! ### Schemas that differ in names -/

/-- The keys of a catalogue, with their categories. -/
def Catalogue.categories (catalogue : Catalogue) : List (Key × Category) :=
  catalogue.entries.map fun entry ↦ (entry.1, entry.2.category)

theorem Table.find_map {α β : Type} (f : α → β) (key : Key) (entries : List (Key × α)) :
    find key (entries.map fun entry ↦ (entry.1, f entry.2)) = (find key entries).map f := by
  induction entries with
  | nil => rfl
  | cons entry rest ih =>
    rw [List.map_cons, find, find, ih]
    split <;> rfl

namespace Schema

/-- Two schemas of one document whose types may differ in their names. -/
structure Respelled (schema twin : Schema) : Prop where
  document : schema.document = twin.document
  categories : schema.catalogue.categories = twin.catalogue.categories

variable {schema twin : Schema} {settings other : Settings}

namespace Respelled

theorem keys (h : schema.Respelled twin) : schema.catalogue.keys = twin.catalogue.keys := by
  have hkeys : ∀ catalogue : Catalogue, catalogue.keys = catalogue.categories.map Prod.fst := by
    intro catalogue
    rw [Catalogue.categories, List.map_map]
    rfl
  rw [hkeys, hkeys, h.categories]

/-- A look-up finds a type of the same category in both, or none in both. -/
theorem category_eq (h : schema.Respelled twin) (key : Key) :
    (schema.catalogue.get? key).map CatalogueEntry.category =
      (twin.catalogue.get? key).map CatalogueEntry.category := by
  rw [Table.get?, Table.get?, ← Table.find_map, ← Table.find_map]
  exact congrArg (Table.find key) h.categories

theorem get?_cases (h : schema.Respelled twin) (key : Key) :
    (schema.catalogue.get? key = none ∧ twin.catalogue.get? key = none) ∨
      ∃ name name' category, schema.catalogue.get? key = some ⟨name, category⟩ ∧
        twin.catalogue.get? key = some ⟨name', category⟩ := by
  have hcategory := h.category_eq key
  cases hentry : schema.catalogue.get? key with
  | none =>
    rw [hentry, Option.map_none, eq_comm, Option.map_eq_none_iff] at hcategory
    exact .inl ⟨rfl, hcategory⟩
  | some entry =>
    rw [hentry, Option.map_some, eq_comm, Option.map_eq_some_iff] at hcategory
    obtain ⟨entry', hentry', hcategory⟩ := hcategory
    exact .inr ⟨entry.name, entry'.name, entry.category, rfl, hcategory ▸ hentry'⟩

theorem type?_cases (h : schema.Respelled twin) (key : Key) :
    (schema.type? key = none ∧ twin.type? key = none) ∨
      ∃ name name' node, schema.type? key = some ⟨key, name, node⟩ ∧
        twin.type? key = some ⟨key, name', node⟩ := by
  rw [type?, type?, ← h.document]
  obtain ⟨hnone, hnone'⟩ | ⟨name, name', category, hentry, hentry'⟩ := h.get?_cases key
  · rw [hnone, hnone']
    exact .inl ⟨rfl, rfl⟩
  · rw [hentry, hentry']
    cases schema.document.get? key with
    | none => exact .inl ⟨rfl, rfl⟩
    | some node => exact .inr ⟨name, name', node, rfl, rfl⟩

/-! ### Walks -/

theorem isAliasKey (h : schema.Respelled twin) : schema.isAliasKey = twin.isAliasKey := by
  funext key
  rw [Schema.isAliasKey, Schema.isAliasKey]
  obtain ⟨hnone, hnone'⟩ | ⟨name, name', category, hentry, hentry'⟩ := h.get?_cases key
  · rw [hnone, hnone']
  · rw [hentry, hentry']
    rfl

theorem aliasWalk (h : schema.Respelled twin) : schema.aliasWalk = twin.aliasWalk := by
  have hkeys : ∀ schema : Schema, schema.aliasKeys =
      (schema.catalogue.categories.filter fun entry ↦ entry.2.isAlias).map Prod.fst := by
    intro schema
    rw [Catalogue.categories, List.filter_map, List.map_map]
    rfl
  have hneeds : schema.aliasNeeds = twin.aliasNeeds := by
    funext key
    rw [aliasNeeds, aliasNeeds, h.document, h.isAliasKey]
  rw [Schema.aliasWalk, Schema.aliasWalk, hkeys, hkeys, h.categories, hneeds]

theorem link? (h : schema.Respelled twin) : schema.link? = twin.link? := by
  funext member
  simp only [Schema.link?, ← h.document]
  obtain ⟨hnone, hnone'⟩ | ⟨name, name', category, hentry, hentry'⟩ :=
    h.get?_cases (schema.document.expand member.type).target
  · rw [hnone, hnone']
  · rw [hentry, hentry']

theorem recordWalk (h : schema.Respelled twin) : schema.recordWalk = twin.recordWalk := by
  have hrecordLinks : schema.recordLinks = twin.recordLinks := by
    funext record
    rw [recordLinks, recordLinks, h.link?]
  have hentries : ∀ schema : Schema, schema.links.entries =
      schema.catalogue.categories.filterMap fun entry ↦
        (if entry.2.isRecord then
          ((schema.document.get? entry.1).bind Node.record?).map schema.recordLinks
        else none).map fun links ↦ (entry.1, links) := by
    intro schema
    rw [Catalogue.categories, List.filterMap_map]
    rfl
  have hlinks : schema.links = twin.links := by
    have hsame : schema.links.entries = twin.links.entries := by
      rw [hentries, hentries, h.categories, h.document, hrecordLinks]
    cases hfirst : schema.links
    cases hsecond : twin.links
    rw [hfirst, hsecond] at hsame
    cases hsame
    rfl
  rw [Schema.recordWalk, Schema.recordWalk, hlinks]

/-! ### Types -/

theorem resolve (h : schema.Respelled twin) (type context : String) :
    Alike (fun _ ↦ ()) (schema.resolve type context) (twin.resolve type context) := by
  rw [Schema.resolve, Schema.resolve, ← h.document]
  cases Primitive.ofName? type with
  | some primitive => rfl
  | none =>
    obtain ⟨hnone, hnone'⟩ | ⟨name, name', category, hentry, hentry'⟩ := h.get?_cases type
    · simp only [hnone, hnone']
      rfl
    · simp only [hentry, hentry']
      rfl

theorem typeRef (h : schema.Respelled twin) (type : String) (indirection : Option Indirection)
    (context : String) :
    Alike (fun _ ↦ ()) (schema.typeRef type indirection context)
      (twin.typeRef type indirection context) :=
  (h.resolve type context).map fun _ _ _ ↦ rfl

theorem returnType (h : schema.Respelled twin) (returns : Option String) (context : String) :
    Alike (fun _ ↦ ()) (schema.returnType returns context) (twin.returnType returns context) := by
  cases returns with
  | none => rfl
  | some type => exact h.typeRef type none context

theorem declarators (h : schema.Respelled twin) (owner : String) (members : List Member) :
    Alike (List.map fun _ ↦ ()) (schema.declarators owner members)
      (twin.declarators owner members) :=
  Alike.mapM fun member ↦ (h.typeRef member.type member.indirection _).map fun _ _ _ ↦ rfl

/-! ### Sections -/

section Sections

variable (h : schema.Respelled twin) (hexclusion : settings.exclusion = other.exclusion)

include hexclusion

theorem keeps_eq (tags : List Tag) : settings.keeps tags = other.keeps tags := by
  rw [Settings.keeps, Settings.keeps, hexclusion]

theorem keptMembers_eq (members : List Member) :
    settings.keptMembers members = other.keptMembers members := by
  simp only [Settings.keptMembers, keeps_eq hexclusion]

theorem alike_keptBlock {α γ : Type} {view : α → γ} (tags : List Tag)
    {block block' : Except HeaderError (List α)} (hblock : Alike (List.map view) block block') :
    Alike (List.map view) (keptBlock settings tags block) (keptBlock other tags block') := by
  rw [keptBlock, keptBlock, keeps_eq hexclusion]
  split
  · exact hblock
  · rfl

theorem alike_itemBlock (key : Key) (node : Node)
    {own own' : Except HeaderError (List Declaration)} (hown : Alike List.length own own') :
    Alike (List.map Item.key) (itemBlock settings key node own) (itemBlock other key node own') := by
  refine alike_keptBlock hexclusion node.tags (hown.map fun declarations declarations' hlength ↦ ?_)
  simp only [List.map_map, Function.comp_def, List.map_const', hlength]

include h

theorem alike_typeBlock {own own' : DeclaredType → Except HeaderError (List Declaration)}
    (hown : ∀ key name name' node, Alike List.length (own ⟨key, name, node⟩)
      (own' ⟨key, name', node⟩)) (keys : List Key) :
    Alike (List.map Item.key) (gather (schema.typeBlock settings own) keys)
      (gather (twin.typeBlock other own') keys) := by
  refine Alike.gather fun key _ ↦ ?_
  rw [typeBlock, typeBlock]
  obtain ⟨hnone, hnone'⟩ | ⟨name, name', node, htype, htype'⟩ := h.type?_cases key
  · rw [hnone, hnone']
    rfl
  · rw [htype, htype']
    exact alike_itemBlock hexclusion key node (hown key name name' node)

/-- A section in the order of the catalogue. -/
theorem keys_of_catalogue {own own' : DeclaredType → List Declaration} {items items' : List Item}
    (hitems : .ok items =
      gather (schema.typeBlock settings fun type ↦ .ok (own type)) schema.catalogue.keys)
    (hitems' : .ok items' =
      gather (twin.typeBlock other fun type ↦ .ok (own' type)) twin.catalogue.keys)
    (hown : ∀ key name name' node,
      (own ⟨key, name, node⟩).length = (own' ⟨key, name', node⟩).length) :
    items.map Item.key = items'.map Item.key := by
  apply Alike.view_eq
  rw [hitems, hitems', h.keys]
  exact h.alike_typeBlock hexclusion (fun key name name' node ↦ Alike.ok (hown _ _ _ _)) _

theorem handles : (schema.handles settings).map Item.key = (twin.handles other).map Item.key := by
  refine h.keys_of_catalogue hexclusion (schema.handles_eq_gather settings)
    (twin.handles_eq_gather other) fun key name name' node ↦ ?_
  cases node <;> rfl

theorem forwards :
    (schema.forwards settings).map Item.key = (twin.forwards other).map Item.key := by
  refine h.keys_of_catalogue hexclusion (schema.forwards_eq_gather settings)
    (twin.forwards_eq_gather other) fun key name name' node ↦ ?_
  rw [forwardDeclarations, forwardDeclarations]
  split <;> rfl

theorem enumerations :
    (schema.enumerations settings).map Item.key = (twin.enumerations other).map Item.key := by
  refine h.keys_of_catalogue hexclusion (schema.enumerations_eq_gather settings)
    (twin.enumerations_eq_gather other) fun key name name' node ↦ ?_
  cases node <;> rfl

/-- A section that follows a walk fails alike, also where the walk met a cycle. -/
theorem declare (walk : Walk) (skipped : Key → Event)
    {declaration declaration' : DeclaredType → Except HeaderError (Option Declaration)}
    (hdeclaration : ∀ key name name' node, Alike Option.isSome (declaration ⟨key, name, node⟩)
      (declaration' ⟨key, name', node⟩)) :
    Alike (List.map Item.key)
      (walk.declare (schema.declaredItem settings skipped declaration)).result
      (walk.declare (twin.declaredItem other skipped declaration')).result := by
  rw [Walk.declare, Walk.declare, Logged.result_bind, Logged.result_bind,
    result_collect_declaredItem, result_collect_declaredItem]
  refine (h.alike_typeBlock hexclusion (fun key name name' node ↦ ?_) walk.order).bind ?_
  · refine (hdeclaration key name name' node).map fun first second hsome ↦ ?_
    rw [Option.length_toList, Option.length_toList, hsome]
  · intro items items' hkeys
    cases walk.cycle with
    | some path => rfl
    | none => exact Alike.ok hkeys

theorem aliases : Alike (List.map Item.key) (schema.aliases settings).result
    (twin.aliases other).result := by
  rw [Schema.aliases, Schema.aliases, aliasItem_eq, aliasItem_eq, h.aliasWalk]
  refine h.declare hexclusion _ _ fun key name name' node ↦ ?_
  rcases alias_cases node with ⟨typedef, hnode⟩ | ⟨signature, hpointer⟩ | hother
  · rw [aliasDeclaration_typedef hnode, aliasDeclaration_typedef hnode]
    exact (h.typeRef _ _ _).map fun _ _ _ ↦ rfl
  · rw [aliasDeclaration_pointer hpointer, aliasDeclaration_pointer hpointer,
      keptMembers_eq hexclusion]
    exact (h.returnType _ _).bind fun _ _ _ ↦ (h.declarators _ _).map fun _ _ _ ↦ rfl
  · rw [aliasDeclaration_other hother, aliasDeclaration_other hother]
    rfl

theorem records : Alike (List.map Item.key) (schema.records settings).result
    (twin.records other).result := by
  rw [Schema.records, Schema.records, recordItem_eq, recordItem_eq, h.recordWalk]
  refine h.declare hexclusion _ _ fun key name name' node ↦ ?_
  simp only [recordDeclaration, keptMembers_eq hexclusion]
  cases node.record? with
  | none => rfl
  | some record => exact (h.declarators _ _).map fun _ _ _ ↦ rfl

theorem constants : Alike (List.map Item.key) (schema.constants settings)
    (twin.constants other) := by
  rw [constants_eq_gather, constants_eq_gather, ← h.document]
  refine Alike.gather fun declared _ ↦ alike_itemBlock hexclusion _ _ ?_
  rw [constantDeclarations, constantDeclarations]
  cases declared.2 with
  | constant constant =>
    have hitem : Alike (fun _ ↦ ()) (schema.constantItem settings declared.1 constant)
        (twin.constantItem other declared.1 constant) := by
      rw [constantItem, constantItem]
      cases constant.value with
      | number text => exact (h.resolve _ _).map fun _ _ _ ↦ rfl
      | verbatim text => rfl
    exact hitem.map fun _ _ _ ↦ rfl
  | _ => rfl

theorem signature (key : Key) (stem context : String) (front front' : List Declarator)
    (returns : Option String) (arguments : List Member) :
    Alike Prototype.identity
      (schema.signaturePrototype settings key stem context front returns arguments)
      (twin.signaturePrototype other key stem context front' returns arguments) := by
  rw [signaturePrototype, signaturePrototype, keptMembers_eq hexclusion]
  exact (h.returnType _ _).bind fun _ _ _ ↦ (h.declarators _ _).map fun _ _ _ ↦ rfl

theorem prototypes : Alike (List.map Prototype.identity) (schema.prototypes settings)
    (twin.prototypes other) := by
  have honly : ∀ a b : Prototype, a.identity = b.identity →
      [a].map Prototype.identity = [b].map Prototype.identity := by
    intro a b hab
    rw [List.map_singleton, List.map_singleton, hab]
  have hfunction : ∀ declared, Alike (List.map Prototype.identity)
      (schema.functionBlock settings declared) (twin.functionBlock other declared) := by
    intro declared
    rw [functionBlock, functionBlock]
    cases declared.2 with
    | function signature => exact (h.signature hexclusion _ _ _ _ _ _ _).map honly
    | _ => rfl
  have hobject : ∀ declared, Alike (List.map Prototype.identity)
      (schema.objectBlock settings declared) (twin.objectBlock other declared) := by
    intro declared
    rw [objectBlock, objectBlock]
    cases declared.2 with
    | object object =>
      simp only [objectPrototypes_eq_gather]
      refine (h.resolve _ _).bind fun handle handle' _ ↦ Alike.gather fun method _ ↦
        alike_keptBlock hexclusion _ ?_
      exact (h.signature hexclusion _ _ _ _ _ _ _).map honly
    | _ => rfl
  rw [prototypes_eq_gather, prototypes_eq_gather, ← h.document]
  refine (Alike.gather fun declared _ ↦ alike_keptBlock hexclusion _ (hfunction declared)).bind
    fun functions functions' hfunctions ↦
      (Alike.gather fun declared _ ↦ alike_keptBlock hexclusion _ (hobject declared)).map
        fun methods methods' hmethods ↦ ?_
  rw [List.map_append, List.map_append, hfunctions, hmethods]

theorem header : Alike Header.outline (schema.header settings).result
    (twin.header other).result := by
  have hlinks : Alike (fun _ ↦ ()) schema.chainLinks.result twin.chainLinks.result := by
    rw [chainLinks, chainLinks, Logged.result_bind, Logged.result_bind, chainTag, chainTag]
    cases schema.catalogue.get? chainTagKey <;> cases twin.catalogue.get? chainTagKey <;> rfl
  rw [result_header, result_header]
  refine (h.prototypes hexclusion).bind fun _ _ hprototypes ↦ (h.constants hexclusion).bind
    fun _ _ hconstants ↦ (h.aliases hexclusion).bind fun _ _ haliases ↦ hlinks.bind
      fun _ _ _ ↦ (h.records hexclusion).map fun _ _ hrecords ↦ ?_
  simp only [Header.outline, hprototypes, hconstants, haliases, hrecords, h.handles hexclusion,
    h.forwards hexclusion, h.enumerations hexclusion]

end Sections

end Respelled

end Schema

end ApiHeader
