import ApiHeader.Proofs.Lines
import ApiHeader.Proofs.Rearrangement
import ApiHeader.Proofs.Registration

/-!
# The order of the nodes does not matter

Two documents with the same nodes in another order load alike, and their schemas are
`Rearranged`: look-ups give the same answers, so every type name and every declaration
is written alike, and needs are the same. Hence there is a header for one exactly when
there is one for the other, and each section has the same blocks
(`node_order_immaterial`).
-/

set_option autoImplicit false
set_option relaxedAutoImplicit false

namespace ApiHeader

theorem Table.get?_eq_of_perm {α : Type} {t u : Table α} (h : t.entries.Perm u.entries) :
    t.get? = u.get? := by
  funext key
  ext value
  rw [get?_eq_some_iff, get?_eq_some_iff, h.mem_iff]

theorem Document.Unfolds.congr {document other : Document} (hget : document.get? = other.get?)
    {key target : Key} (h : document.Unfolds key target) : other.Unfolds key target := by
  induction h with
  | self key => exact .self key
  | through hnode hdirect _ ih => exact .through (hget ▸ hnode) hdirect ih

namespace Schema

/-- Two schemas with the same nodes and the same types, perhaps in another order. -/
structure Rearranged (schema other : Schema) : Prop where
  document : schema.document.entries.Perm other.document.entries
  catalogue : schema.catalogue.entries.Perm other.catalogue.entries

variable {document : Document} {typePrefix : String} {schema other : Schema} {settings : Settings}

namespace Rearranged

/-! ### Look-ups -/

theorem get?_document (h : schema.Rearranged other) :
    schema.document.get? = other.document.get? :=
  Table.get?_eq_of_perm h.document

theorem get?_catalogue (h : schema.Rearranged other) :
    schema.catalogue.get? = other.catalogue.get? :=
  Table.get?_eq_of_perm h.catalogue

theorem resolve (h : schema.Rearranged other) : schema.resolve = other.resolve := by
  funext type context
  rw [Schema.resolve, Schema.resolve, h.get?_catalogue, h.get?_document]

theorem typeRef (h : schema.Rearranged other) : schema.typeRef = other.typeRef := by
  funext type indirection context
  rw [Schema.typeRef, Schema.typeRef, h.resolve]

theorem returnType (h : schema.Rearranged other) : schema.returnType = other.returnType := by
  funext returns context
  cases returns with
  | none => rfl
  | some type => rw [Schema.returnType, Schema.returnType, h.typeRef]

theorem declarators (h : schema.Rearranged other) : schema.declarators = other.declarators := by
  have hdeclarator : schema.declarator = other.declarator := by
    funext owner member
    rw [declarator, declarator, h.typeRef]
  funext owner members
  rw [Schema.declarators, Schema.declarators, hdeclarator]

theorem type? (h : schema.Rearranged other) : schema.type? = other.type? := by
  funext key
  rw [Schema.type?, Schema.type?, h.get?_catalogue, h.get?_document]

theorem typeBlock (h : schema.Rearranged other) (settings : Settings) :
    schema.typeBlock settings = other.typeBlock settings := by
  funext own key
  rw [Schema.typeBlock, Schema.typeBlock, h.type?]

theorem recordDeclaration (h : schema.Rearranged other) (settings : Settings) :
    schema.recordDeclaration settings = other.recordDeclaration settings := by
  funext type
  rw [Schema.recordDeclaration, Schema.recordDeclaration, h.declarators]

theorem recordItem (h : schema.Rearranged other) (settings : Settings) :
    schema.recordItem settings = other.recordItem settings := by
  funext key
  rw [recordItem_eq, recordItem_eq, declaredItem, declaredItem, h.type?, h.recordDeclaration]

/-! ### Needs -/

theorem declares_iff (h : schema.Rearranged other) {key : Key} {node : Node} :
    schema.Declares key node ↔ other.Declares key node := by
  rw [Declares, Declares, Table.contains, Table.contains, h.get?_catalogue, h.get?_document]

theorem hasRecord_iff (h : schema.Rearranged other) {key : Key} {record : Record} :
    schema.HasRecord key record ↔ other.HasRecord key record := by
  simp only [HasRecord, h.declares_iff]

theorem isAliasKey (h : schema.Rearranged other) : schema.isAliasKey = other.isAliasKey := by
  funext key
  rw [Schema.isAliasKey, Schema.isAliasKey, h.get?_catalogue]

theorem names (h : schema.Rearranged other) : schema.Names = other.Names := by
  funext key target
  rw [eq_iff_iff, names_iff, names_iff]
  simp only [h.declares_iff, h.isAliasKey]

theorem unfolds_iff (h : schema.Rearranged other) {type target : Key} :
    schema.document.Unfolds type target ↔ other.document.Unfolds type target :=
  ⟨.congr h.get?_document, .congr h.get?_document.symm⟩

theorem holds (hload : ofDocument document typePrefix = .ok schema)
    {document' : Document} {typePrefix' : String}
    (hother : ofDocument document' typePrefix' = .ok other) (h : schema.Rearranged other) :
    schema.Holds = other.Holds := by
  funext key target
  rw [eq_iff_iff, holds_iff_unfolds hload, holds_iff_unfolds hother]
  simp only [h.hasRecord_iff, h.unfolds_iff]

/-! ### Sections -/

/-- A section in the order of the catalogue. -/
theorem sameBlocks_of_catalogue (h : schema.Rearranged other)
    {own : DeclaredType → Except HeaderError (List Declaration)} {items rest : List Item}
    (hitems : .ok items = gather (schema.typeBlock settings own) schema.catalogue.keys)
    (hrest : .ok rest = gather (other.typeBlock settings own) other.catalogue.keys) :
    SameBlocks Item.key items rest := by
  apply Rearranges.sameBlocks
  rw [hitems, hrest, ← h.typeBlock]
  refine Rearranges.gather id (h.catalogue.map Prod.fst) ?_ fun key items hitems item hitem ↦ ?_
  · rw [List.map_id]
    exact schema.catalogue.nodup
  · exact (exists_type_of_mem_typeBlock hitems hitem).1

/-- A section that follows a walk over the same needs. -/
theorem rearranges_declare (h : schema.Rearranged other) {nodes nodes' : List Key}
    {needs needs' : Key → List Key} {skipped : Key → Event}
    {declaration : DeclaredType → Except HeaderError (Option Declaration)}
    (hnodes : ∀ key, key ∈ nodes ↔ key ∈ nodes')
    (hneed : Walk.Need nodes needs = Walk.Need nodes' needs') :
    Rearranges Item.key
      ((Walk.all nodes needs).declare (schema.declaredItem settings skipped declaration)).result
      ((Walk.all nodes' needs').declare
        (other.declaredItem settings skipped declaration)).result := by
  intro items hitems
  obtain ⟨hcycle, hgather⟩ := (schema.declare_eq_gather settings).mp hitems
  have hcycle' := Walk.cycle_eq_none_of_need_eq hneed hcycle
  obtain ⟨rest, hrest, hsame⟩ := Rearranges.gather id (Walk.order_perm hnodes hcycle hcycle')
    (by rw [List.map_id]; exact (Walk.all_reached nodes needs).sound.nodup)
    (fun key items hitems item hitem ↦ (exists_type_of_mem_typeBlock hitems hitem).1) items hgather
  rw [h.typeBlock] at hrest
  exact ⟨rest, (other.declare_eq_gather settings).mpr ⟨hcycle', hrest⟩, hsame⟩

theorem aliases (hload : ofDocument document typePrefix = .ok schema) {document' : Document}
    {typePrefix' : String} (hother : ofDocument document' typePrefix' = .ok other)
    (h : schema.Rearranged other) (settings : Settings) :
    Rearranges Item.key (schema.aliases settings).result (other.aliases settings).result := by
  have hdeclaration : schema.aliasDeclaration settings = other.aliasDeclaration settings := by
    funext type
    rw [aliasDeclaration, aliasDeclaration, h.typeRef, h.returnType, h.declarators]
  rw [Schema.aliases, Schema.aliases, aliasItem_eq, aliasItem_eq, hdeclaration]
  refine h.rearranges_declare (fun key ↦ ?_) ?_
  · rw [mem_aliasKeys_iff, mem_aliasKeys_iff, h.isAliasKey]
  · rw [need_aliases_eq hload, need_aliases_eq hother, h.names]

theorem records (hload : ofDocument document typePrefix = .ok schema) {document' : Document}
    {typePrefix' : String} (hother : ofDocument document' typePrefix' = .ok other)
    (h : schema.Rearranged other) (settings : Settings) :
    Rearranges Item.key (schema.records settings).result (other.records settings).result := by
  rw [Schema.records, Schema.records, recordItem_eq, recordItem_eq, h.recordDeclaration]
  refine h.rearranges_declare (fun key ↦ ?_) ?_
  · simp only [mem_keys_links_iff hload, mem_keys_links_iff hother, h.hasRecord_iff]
  · rw [need_links_eq, need_links_eq, h.holds hload hother]

/-- A section in the order of the document. -/
theorem rearranges_document {α : Type} (h : schema.Rearranged other) {key : α → Key}
    {block : Key × Node → Except HeaderError (List α)}
    (hkey : ∀ declared own, block declared = .ok own → ∀ a ∈ own, key a = declared.1) :
    Rearranges key (gather block schema.document.entries)
      (gather block other.document.entries) :=
  Rearranges.gather Prod.fst h.document schema.document.nodup hkey

theorem constants (h : schema.Rearranged other) (settings : Settings) :
    Rearranges Item.key (schema.constants settings) (other.constants settings) := by
  have hdeclarations :
      schema.constantDeclarations settings = other.constantDeclarations settings := by
    funext declared
    simp only [constantDeclarations, constantItem, h.resolve]
  rw [constants_eq_gather, constants_eq_gather, hdeclarations]
  refine h.rearranges_document fun declared items hitems item hitem ↦ ?_
  obtain ⟨-, hitems⟩ := kept_of_mem_keptBlock hitems hitem
  obtain ⟨declarations, -, hitems⟩ := bind_eq_ok_iff.mp hitems
  obtain rfl := Except.ok.inj hitems
  obtain ⟨declaration, -, rfl⟩ := List.mem_map.mp hitem
  rfl

theorem prototypes (h : schema.Rearranged other) (settings : Settings) :
    Rearranges Prototype.key (schema.prototypes settings) (other.prototypes settings) := by
  have hsignature : schema.signaturePrototype settings = other.signaturePrototype settings := by
    funext key stem context front returns arguments
    rw [signaturePrototype, signaturePrototype, h.returnType, h.declarators]
  have hfunction : schema.functionBlock settings = other.functionBlock settings := by
    funext declared
    rw [functionBlock, functionBlock, hsignature]
  have hobject : schema.objectBlock settings = other.objectBlock settings := by
    funext declared
    simp only [objectBlock, objectPrototypes_eq_gather, methodBlock, hsignature, h.resolve]
  rw [prototypes_eq_gather, prototypes_eq_gather, ← hfunction, ← hobject]
  refine (h.rearranges_document ?_).append (h.rearranges_document ?_) ?_
  · intro declared own hown prototype hprototype
    obtain ⟨-, hown⟩ := kept_of_mem_keptBlock hown hprototype
    exact (function_of_mem_functionBlock hown hprototype).1
  · intro declared own hown prototype hprototype
    obtain ⟨-, hown⟩ := kept_of_mem_keptBlock hown hprototype
    exact (method_of_mem_objectBlock hown hprototype).1
  · -- No node is both a function and an object.
    intro functions methods hfunctions hmethods prototype hprototype other hother hkey
    obtain ⟨first, hfirst, own, hown, hprototype⟩ := (mem_gather_iff hfunctions).mp hprototype
    obtain ⟨-, hown⟩ := kept_of_mem_keptBlock hown hprototype
    obtain ⟨hfunction, signature, hsignature, -⟩ := function_of_mem_functionBlock hown hprototype
    obtain ⟨second, hsecond, own', hown', hother⟩ := (mem_gather_iff hmethods).mp hother
    obtain ⟨-, hown'⟩ := kept_of_mem_keptBlock hown' hother
    obtain ⟨hmethod, object, method, hobject, -⟩ := method_of_mem_objectBlock hown' hother
    have hsame : first = second := List.inj_on_of_nodup_map schema.document.nodup hfirst hsecond
      (hfunction.symm.trans (hkey.trans hmethod))
    rw [hsame, hobject] at hsignature
    cases hsignature

theorem chainLinks (h : schema.Rearranged other) :
    schema.chainLinks.result = other.chainLinks.result := by
  simp only [Schema.chainLinks, chainTag, Logged.result_bind, h.get?_catalogue]

end Rearranged

/-- A document with its nodes in another order loads too, to the same declarations. -/
theorem ofDocument_of_perm {document other : Document}
    (hperm : document.entries.Perm other.entries)
    (hload : ofDocument document typePrefix = .ok schema) :
    ∃ rest, ofDocument other typePrefix = .ok rest ∧ schema.Rearranged rest := by
  have hregistered : (Catalogue.registered document.entries).Perm
      (Catalogue.registered other.entries) := hperm.filter _
  obtain ⟨hclash, hnodup⟩ := exists_ofDocument_eq_ok_iff.mp ⟨schema, hload⟩
  obtain ⟨rest, hrest⟩ := exists_ofDocument_eq_ok_iff.mpr
    ⟨fun declared hdeclared ↦ hclash declared (hperm.mem_iff.mpr hdeclared),
      (hregistered.map _).nodup hnodup⟩
  obtain ⟨-, hdocument, hcatalogue⟩ := ofDocument_eq_ok_iff.mp hload
  obtain ⟨-, hdocument', hcatalogue'⟩ := ofDocument_eq_ok_iff.mp hrest
  refine ⟨rest, hrest, ?_, ?_⟩
  · rwa [hdocument, hdocument']
  · rw [Catalogue.entries_ofDocument hcatalogue, Catalogue.entries_ofDocument hcatalogue']
    exact hregistered.map _

end Schema

/-! ### Headers -/

/-- The sections of two headers have the same blocks, and their chain links are the same. -/
structure Header.Rearranged (header rest : Header) : Prop where
  constants : SameBlocks Item.key header.constants rest.constants
  handles : SameBlocks Item.key header.handles rest.handles
  forwards : SameBlocks Item.key header.forwards rest.forwards
  enumerations : SameBlocks Item.key header.enumerations rest.enumerations
  aliases : SameBlocks Item.key header.aliases rest.aliases
  chainLinks : header.chainLinks = rest.chainLinks
  records : SameBlocks Item.key header.records rest.records
  prototypes : SameBlocks Prototype.key header.prototypes rest.prototypes

namespace Document

variable {document other : Document} {typePrefix : String} {settings : Settings}
  {header rest : Header}

theorem Yields.of_perm (hperm : document.entries.Perm other.entries)
    (h : document.Yields typePrefix settings header) :
    ∃ rest, other.Yields typePrefix settings rest ∧ header.Rearranged rest := by
  obtain ⟨schema, hload, hheader, -⟩ := h
  obtain ⟨schema', hload', hsame⟩ := Schema.ofDocument_of_perm hperm hload
  obtain ⟨hprototypes, hconstants, haliases, hlinks, hrecords, hhandles, hforwards,
    henumerations⟩ := Schema.header_eq_ok_iff.mp hheader
  obtain ⟨prototypes, hprototypes', hprototypes⟩ := hsame.prototypes settings _ hprototypes
  obtain ⟨constants, hconstants', hconstants⟩ := hsame.constants settings _ hconstants
  obtain ⟨aliases, haliases', haliases⟩ := hsame.aliases hload hload' settings _ haliases
  obtain ⟨records, hrecords', hrecords⟩ := hsame.records hload hload' settings _ hrecords
  have hheader' : (schema'.header settings).result = .ok
      { constants, handles := schema'.handles settings, forwards := schema'.forwards settings,
        enumerations := schema'.enumerations settings, aliases, chainLinks := header.chainLinks,
        records, prototypes } :=
    Schema.header_eq_ok_iff.mpr ⟨hprototypes', hconstants', haliases',
      hsame.chainLinks.symm.trans hlinks, hrecords', rfl, rfl, rfl⟩
  refine ⟨_, ⟨schema', hload', hheader', Schema.headerText_eq_ok_iff.mpr ⟨_, hheader', rfl⟩⟩,
    hconstants, ?_, ?_, ?_, haliases, rfl, hrecords, hprototypes⟩
  · rw [← hhandles]
    exact hsame.sameBlocks_of_catalogue (schema.handles_eq_gather settings)
      (schema'.handles_eq_gather settings)
  · rw [← hforwards]
    exact hsame.sameBlocks_of_catalogue (schema.forwards_eq_gather settings)
      (schema'.forwards_eq_gather settings)
  · rw [← henumerations]
    exact hsame.sameBlocks_of_catalogue (schema.enumerations_eq_gather settings)
      (schema'.enumerations_eq_gather settings)

/-- Whether a document has a header does not depend on the order of its nodes. Nor do
the blocks of its sections, and so the lines of its text: only the order in which they
stand does. -/
theorem node_order_immaterial (hperm : document.entries.Perm other.entries) (typePrefix : String)
    (settings : Settings) :
    ((∃ header, document.Yields typePrefix settings header) ↔
      ∃ header, other.Yields typePrefix settings header) ∧
    ∀ header rest, document.Yields typePrefix settings header →
      other.Yields typePrefix settings rest → header.Rearranged rest ∧
        Interleaved ((header.lines settings).map (Line.text settings)) (header.text settings) ∧
        Interleaved ((rest.lines settings).map (Line.text settings)) (rest.text settings) := by
  refine ⟨⟨fun h ↦ ?_, fun h ↦ ?_⟩, fun header rest hheader hrest ↦ ?_⟩
  · obtain ⟨header, hheader⟩ := h
    obtain ⟨rest, hrest, -⟩ := hheader.of_perm hperm
    exact ⟨rest, hrest⟩
  · obtain ⟨header, hheader⟩ := h
    obtain ⟨rest, hrest, -⟩ := hheader.of_perm hperm.symm
    exact ⟨rest, hrest⟩
  · obtain ⟨rest', hrest', hsame⟩ := hheader.of_perm hperm
    rw [hrest.unique hrest']
    exact ⟨hsame, header.interleaved_lines settings, rest'.interleaved_lines settings⟩

/-- The nodes of `Schema.nested`, the last one first. -/
def nestedReversed : Document :=
  ⟨Schema.nested.document.entries.reverse, by decide⟩

/-- Its forward declarations stand the other way round. -/
theorem nestedReversed_rearranged :
    ∃ header rest, Schema.nested.document.Yields "WGPU" .standard header ∧
      nestedReversed.Yields "WGPU" .standard rest ∧
      header.forwards.map Item.key = ["outer", "middle", "leaf"] ∧
      rest.forwards.map Item.key = ["leaf", "middle", "outer"] ∧ header.Rearranged rest := by
  have hperm : Schema.nested.document.entries.Perm nestedReversed.entries :=
    (List.reverse_perm _).symm
  have hload : Schema.ofDocument Schema.nested.document "WGPU" = .ok Schema.nested := rfl
  have hwritten : (Schema.nested.header .standard).result.isOk = true := by decide +kernel
  obtain ⟨header, hheader⟩ := exists_ok_of_isOk hwritten
  have hyields : Schema.nested.document.Yields "WGPU" .standard header :=
    ⟨_, hload, hheader, Schema.headerText_eq_ok_iff.mpr ⟨header, hheader, rfl⟩⟩
  have hsame := node_order_immaterial hperm "WGPU" .standard
  obtain ⟨rest, hrest⟩ := hsame.1.mp ⟨header, hyields⟩
  refine ⟨header, rest, hyields, hrest, ?_, ?_, (hsame.2 header rest hyields hrest).1⟩
  · obtain ⟨-, -, -, -, -, -, hforwards, -⟩ := Schema.header_eq_ok_iff.mp hheader
    rw [← hforwards]
    decide +kernel
  · obtain ⟨schema, hload', hheader', -⟩ := hrest
    obtain ⟨-, -, -, -, -, -, hforwards, -⟩ := Schema.header_eq_ok_iff.mp hheader'
    have hkeys : (Schema.ofDocument nestedReversed "WGPU").map
        (fun schema ↦ (schema.forwards .standard).map Item.key) =
          .ok ["leaf", "middle", "outer"] := by decide +kernel
    rw [hload'] at hkeys
    rw [← hforwards]
    exact Except.ok.inj hkeys

end Document

end ApiHeader
