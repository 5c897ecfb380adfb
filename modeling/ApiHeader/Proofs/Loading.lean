import ApiHeader.Header.Sections
import ApiHeader.Order
import ApiHeader.Proofs.Clashes
import Mathlib.Data.List.Nodup
import Mathlib.Data.Option.Basic

/-!
# Loaded schemas

The catalogue of a loaded schema is made of the nodes of its document: its entries
are those of the registered nodes, in the order of the document
(`entries_ofDocument`). So a look-up in the catalogue is one in the document
(`get?_catalogue_eq_some_iff`), and a key of the catalogue has a node of the category
that the catalogue tells (`Schema.Declares`). The names that a node lists are spelled
differently (`Schema.namesDistinct`).
-/

set_option autoImplicit false
set_option relaxedAutoImplicit false

namespace ApiHeader

/-- A list without repetitions grows by what is new to it. -/
theorem eraseDups_concat (seen : List Key) (key : Key) :
    (seen ++ [key]).eraseDups =
      if key ∈ seen then seen.eraseDups else seen.eraseDups ++ [key] := by
  rw [List.eraseDups_append]
  by_cases hmem : key ∈ seen <;> simp [List.removeAll, List.eraseDups_cons, hmem]

namespace Table

variable {α β : Type}

theorem find_eq_some_iff {entries : List (Key × α)} (hnodup : (entries.map Prod.fst).Nodup)
    {key : Key} {value : α} : find key entries = some value ↔ (key, value) ∈ entries := by
  induction entries with
  | nil => simp [find]
  | cons entry rest ih =>
    obtain ⟨other, old⟩ := entry
    rw [List.map_cons, List.nodup_cons] at hnodup
    by_cases hkey : other = key
    · subst hkey
      have hfresh : (other, value) ∉ rest := fun hmem ↦
        hnodup.1 (List.mem_map.mpr ⟨(other, value), hmem, rfl⟩)
      simp [find, hfresh, eq_comm]
    · have hkey' : ¬ key = other := fun h ↦ hkey h.symm
      simp [find, hkey, hkey', ih hnodup.2]

/-- To look a key up is to find its entry. -/
theorem get?_eq_some_iff {t : Table α} {key : Key} {value : α} :
    t.get? key = some value ↔ (key, value) ∈ t.entries :=
  find_eq_some_iff t.nodup

theorem mem_keys_iff {t : Table α} {key : Key} :
    key ∈ t.keys ↔ ∃ value, t.get? key = some value := by
  simp only [keys, get?_eq_some_iff, List.mem_map, Prod.exists, exists_and_right, exists_eq_right]

theorem contains_iff {t : Table α} {key : Key} :
    t.contains key = true ↔ ∃ value, t.get? key = some value := by
  rw [contains, Option.isSome_iff_exists]

theorem get?_filterMap (f : Key → α → Option β) (t : Table α) (key : Key) :
    (t.filterMap f).get? key = (t.get? key).bind (f key) := by
  ext value
  rw [get?_eq_some_iff, Option.bind_eq_some_iff]
  simp only [get?_eq_some_iff, filterMap, List.mem_filterMap, Option.map_eq_some_iff, Prod.exists,
    Prod.mk.injEq]
  constructor
  · rintro ⟨other, old, hmem, new, hnew, rfl, rfl⟩
    exact ⟨old, hmem, hnew⟩
  · rintro ⟨old, hmem, hnew⟩
    exact ⟨key, old, hmem, value, hnew, rfl, rfl⟩

theorem keys_filterMap (f : Key → α → Option β) (t : Table α) :
    (t.filterMap f).keys =
      (t.entries.filter fun entry ↦ (f entry.1 entry.2).isSome).map Prod.fst := by
  simp only [keys, filterMap]
  induction t.entries with
  | nil => rfl
  | cons entry rest ih =>
    obtain ⟨key, value⟩ := entry
    cases h : f key value with
    | none => simpa [List.filterMap_cons, List.filter_cons, h] using ih
    | some new => simpa [List.filterMap_cons, List.filter_cons, h] using ih

theorem write_of_notMem {entries : List (Key × α)} {key : Key} (hkey : key ∉ entries.map Prod.fst)
    (value : α) : write key value entries = entries ++ [(key, value)] := by
  induction entries with
  | nil => rfl
  | cons entry rest ih =>
    obtain ⟨other, old⟩ := entry
    rw [List.map_cons, List.mem_cons, not_or] at hkey
    rw [write, if_neg (Ne.symm hkey.1), ih hkey.2, List.cons_append]

end Table

namespace Catalogue

/-- The entry of a node that is in the catalogue. -/
def entryOf (typePrefix : String) (declared : Key × Node) : Key × CatalogueEntry :=
  (declared.1, ⟨typeName typePrefix declared.1, declared.2.category⟩)

def registered (nodes : List (Key × Node)) : List (Key × Node) :=
  nodes.filter fun (key, node) ↦ registers key node

theorem entries_addNodes {typePrefix : String} {catalogue result : Catalogue}
    {nodes : List (Key × Node)} (hnodup : (catalogue.keys ++ nodes.map Prod.fst).Nodup)
    (h : addNodes typePrefix catalogue nodes = .ok result) :
    result.entries = catalogue.entries ++ (registered nodes).map (entryOf typePrefix) := by
  induction nodes generalizing catalogue with
  | nil =>
    obtain rfl : catalogue = result := Except.ok.inj h
    simp [registered]
  | cons declared rest ih =>
    obtain ⟨key, node⟩ := declared
    have hkey : key ∉ catalogue.keys := by
      intro hmem
      exact List.disjoint_of_nodup_append hnodup hmem List.mem_cons_self
    have hrest : (catalogue.keys ++ rest.map Prod.fst).Nodup :=
      hnodup.sublist ((List.sublist_cons_self _ _).append_left _)
    simp only [addNodes] at h
    by_cases hreg : registers key node = true
    · rw [if_pos hreg] at h
      split at h
      · cases h
      · have hentries : (catalogue.insert key ⟨typeName typePrefix key, node.category⟩).entries =
            catalogue.entries ++ [entryOf typePrefix (key, node)] := Table.write_of_notMem hkey _
        have hkeys : (catalogue.insert key ⟨typeName typePrefix key, node.category⟩).keys =
            catalogue.keys ++ [key] := by
          rw [Table.keys_insert, if_neg hkey]
        rw [ih (by rwa [hkeys, List.append_assoc, List.singleton_append]) h, hentries]
        simp [registered, hreg]
    · rw [if_neg hreg] at h
      rw [ih hrest h]
      simp [registered, hreg]

/-- The catalogue of a document has the registered nodes, in order. -/
theorem entries_ofDocument {document : Document} {typePrefix : String} {catalogue : Catalogue}
    (h : ofDocument document typePrefix = .ok catalogue) :
    catalogue.entries = (registered document.entries).map (entryOf typePrefix) := by
  have hnodup : ((Table.empty : Catalogue).keys ++ document.entries.map Prod.fst).Nodup :=
    document.nodup
  exact entries_addNodes hnodup h

end Catalogue

namespace Schema

/-- A key is in the catalogue, and the document has this node for it. -/
def Declares (schema : Schema) (key : Key) (node : Node) : Prop :=
  schema.catalogue.contains key = true ∧ schema.document.get? key = some node

variable {document : Document} {typePrefix : String} {schema : Schema}

theorem ofDocument_eq_ok_iff : ofDocument document typePrefix = .ok schema ↔
    document.clash? = none ∧ schema.document = document ∧
      Catalogue.ofDocument document typePrefix = .ok schema.catalogue := by
  rw [ofDocument]
  cases hclash : document.clash? with
  | some clash => simp
  | none =>
    cases hcatalogue : Catalogue.ofDocument document typePrefix with
    | error e => simp
    | ok catalogue =>
      simp only [Except.ok.injEq, true_and]
      constructor
      · rintro rfl
        exact ⟨rfl, rfl⟩
      · rintro ⟨rfl, rfl⟩
        rfl

/-- A look-up in the catalogue of a loaded schema is one in its document. -/
theorem get?_catalogue_eq_some_iff (hload : ofDocument document typePrefix = .ok schema)
    {key : Key} {entry : CatalogueEntry} :
    schema.catalogue.get? key = some entry ↔ ∃ node, schema.document.get? key = some node ∧
      Catalogue.registers key node = true ∧ entry = ⟨typeName typePrefix key, node.category⟩ := by
  obtain ⟨-, rfl, hcatalogue⟩ := ofDocument_eq_ok_iff.mp hload
  simp only [Table.get?_eq_some_iff, Catalogue.entries_ofDocument hcatalogue, List.mem_map,
    Catalogue.registered, List.mem_filter, Catalogue.entryOf, Prod.exists, Prod.mk.injEq]
  constructor
  · rintro ⟨other, node, ⟨hmem, hreg⟩, rfl, rfl⟩
    exact ⟨node, hmem, hreg, rfl⟩
  · rintro ⟨node, hmem, hreg, rfl⟩
    exact ⟨key, node, ⟨hmem, hreg⟩, rfl, rfl⟩

theorem declares_iff (hload : ofDocument document typePrefix = .ok schema) {key : Key}
    {node : Node} : schema.Declares key node ↔
      schema.document.get? key = some node ∧ Catalogue.registers key node = true := by
  rw [Declares, Table.contains_iff, and_comm]
  refine and_congr_right fun hnode ↦ ?_
  simp only [get?_catalogue_eq_some_iff hload, hnode, Option.some.injEq, exists_eq_left',
    exists_and_left, exists_eq, and_true]

/-- The catalogue tells the category of the node that the document has. -/
theorem any_category_iff (hload : ofDocument document typePrefix = .ok schema) {key : Key}
    (p : Category → Bool) :
    (schema.catalogue.get? key).any (fun entry ↦ p entry.category) = true ↔
      ∃ node, schema.Declares key node ∧ p node.category = true := by
  simp only [Option.any_eq_true, declares_iff hload, get?_catalogue_eq_some_iff hload]
  constructor
  · rintro ⟨entry, ⟨node, hnode, hreg, rfl⟩, hp⟩
    exact ⟨node, ⟨hnode, hreg⟩, hp⟩
  · rintro ⟨node, ⟨hnode, hreg⟩, hp⟩
    exact ⟨_, ⟨node, hnode, hreg, rfl⟩, hp⟩

theorem type?_eq_some_iff {key : Key} {type : DeclaredType} :
    schema.type? key = some type ↔ type.key = key ∧ schema.document.get? key = some type.node ∧
      ∃ entry, schema.catalogue.get? key = some entry ∧ entry.name = type.name := by
  obtain ⟨other, name, node⟩ := type
  simp only [type?, Option.bind_eq_bind, Option.bind_eq_some_iff, Option.pure_def,
    Option.some.injEq, DeclaredType.mk.injEq]
  constructor
  · rintro ⟨entry, hentry, _, hnode, rfl, rfl, rfl⟩
    exact ⟨rfl, hnode, entry, hentry, rfl⟩
  · rintro ⟨rfl, hnode, entry, hentry, rfl⟩
    exact ⟨entry, hentry, node, hnode, rfl, rfl, rfl⟩

theorem Declares.type? {key : Key} {node : Node} (h : schema.Declares key node) :
    ∃ name, schema.type? key = some ⟨key, name, node⟩ := by
  obtain ⟨entry, hentry⟩ := Table.contains_iff.mp h.1
  exact ⟨entry.name, type?_eq_some_iff.mpr ⟨rfl, h.2, entry, hentry, rfl⟩⟩

theorem declares_of_type? {key : Key} {type : DeclaredType} (h : schema.type? key = some type) :
    type.key = key ∧ schema.Declares key type.node := by
  obtain ⟨hkey, hnode, entry, hentry, -⟩ := type?_eq_some_iff.mp h
  exact ⟨hkey, Table.contains_iff.mpr ⟨entry, hentry⟩, hnode⟩

theorem node_eq_of_type? {key : Key} {type : DeclaredType} {node : Node}
    (htype : schema.type? key = some type) (hnode : schema.document.get? key = some node) :
    type.node = node :=
  Option.some.inj ((declares_of_type? htype).2.2.symm.trans hnode)

end Schema

/-! ### Names in one list -/

theorem Text.camelCase_eq_of_pascalCase_eq {s t : String} (h : pascalCase s = pascalCase t) :
    camelCase s = camelCase t := by
  have hchars : pascalChars s.toList = pascalChars t.toList := String.ofList_injective h
  rw [camelCase, camelCase, hchars]

namespace Schema

variable {document : Document} {typePrefix : String} {schema : Schema}

/-- Loading has compared the names in each list of a node. -/
theorem namesDistinct (hload : ofDocument document typePrefix = .ok schema) {key : Key}
    {node : Node} (hnode : schema.document.get? key = some node) : node.NamesDistinct := by
  obtain ⟨hclash, rfl, -⟩ := ofDocument_eq_ok_iff.mp hload
  exact Document.clash?_eq_none_iff.mp hclash _ (Table.get?_eq_some_iff.mp hnode)

theorem nodup_methods (hload : ofDocument document typePrefix = .ok schema) {key : Key}
    {object : Object} (hnode : schema.document.get? key = some (.object object)) :
    (object.methods.map fun method ↦ Text.camelCase method.name).Nodup :=
  (namesDistinct hload hnode).1

/-- Two methods of an object of a loaded schema that are spelled alike are the same. -/
theorem method_eq_of_pascalCase_eq (hload : ofDocument document typePrefix = .ok schema)
    {key : Key} {object : Object} (hnode : schema.document.get? key = some (.object object))
    {first second : Method} (hfirst : first ∈ object.methods) (hsecond : second ∈ object.methods)
    (h : Text.pascalCase first.name = Text.pascalCase second.name) : first = second :=
  List.inj_on_of_nodup_map (nodup_methods hload hnode) hfirst hsecond
    (Text.camelCase_eq_of_pascalCase_eq h)

end Schema

end ApiHeader
