import ApiHeader.Proofs.AliasChains

/-!
# What records hold

The links of a record come from its members, whatever their order: a record holds
another by value when some member does (`holds_iff`). A member holds what its type unfolds
to through aliases of the document none of which points (`holds_iff_unfolds`). So records
hold by value what their members contain (`holds_of_contains`).
-/

set_option autoImplicit false
set_option relaxedAutoImplicit false

namespace ApiHeader

/-! ### Types behind aliases -/

/-- A type name stands for a type itself, or through aliases of the catalogue none of
which points. -/
inductive Schema.StandsFor (schema : Schema) : Key → Key → Prop where
  | self (key : Key) : StandsFor schema key key
  | through {key target : Key} {typedef : Typedef}
      (hdeclares : schema.Declares key (.typedef typedef)) (hdirect : typedef.indirection = none)
      (hrest : StandsFor schema typedef.target target) : StandsFor schema key target

theorem Schema.StandsFor.unfolds {schema : Schema} {key target : Key}
    (hstands : schema.StandsFor key target) : schema.document.Unfolds key target := by
  induction hstands with
  | self key => exact .self key
  | through hdeclares hdirect _ ih => exact .through hdeclares.2 hdirect ih

/-! ### Links -/

namespace Link

/-- Some link of a list holds a record by value. -/
def Holding (links : List Link) (target : Key) : Prop :=
  ∃ link ∈ links, link.target = target ∧ link.byValue = true

theorem holding_cons {link : Link} {links : List Link} {target : Key} :
    Holding (link :: links) target ↔
      (link.target = target ∧ link.byValue = true) ∨ Holding links target := by
  rw [Holding, List.exists_mem_cons_iff]
  rfl

theorem holding_merge (link : Link) (links : List Link) (target : Key) :
    Holding (link.merge links) target ↔ Holding (link :: links) target := by
  induction links with
  | nil => rfl
  | cons first rest ih =>
    rw [merge, holding_cons, holding_cons]
    by_cases hfirst : first.target = link.target
    · rw [if_pos hfirst, holding_cons]
      simp only [Bool.or_eq_true, hfirst]
      tauto
    · rw [if_neg hfirst, holding_cons, ih, holding_cons]
      tauto

theorem holding_foldl_merge (news links : List Link) (target : Key) :
    Holding (news.foldl (fun links link ↦ link.merge links) links) target ↔
      Holding links target ∨ Holding news target := by
  induction news generalizing links with
  | nil => simp [Holding]
  | cons link rest ih =>
    rw [List.foldl_cons, ih, holding_merge, holding_cons, holding_cons]
    tauto

end Link

/-- The keys of the records that go into the catalogue, in the order of the document. -/
def Document.recordKeys (document : Document) : List Key :=
  ((Catalogue.registered document.entries).filter fun declared ↦
    declared.2.category.isRecord).map Prod.fst

namespace Schema

/-- Whether the catalogue tells that a key is that of a record. -/
def isRecordKey (schema : Schema) (key : Key) : Bool :=
  (schema.catalogue.get? key).any (·.category.isRecord)

/-- A key of the catalogue is that of a record. -/
def HasRecord (schema : Schema) (key : Key) (record : Record) : Prop :=
  ∃ node, schema.Declares key node ∧ node.record? = some record

/-- The links tell that a record holds another by value. -/
def Holds (schema : Schema) (key target : Key) : Prop :=
  target ∈ heldBy schema.links key

/-- Some of the members of a record contain another: they do not point, and their type
stands for it. -/
def ContainedIn (schema : Schema) (members : List Member) (target : Key) : Prop :=
  (∃ record, schema.HasRecord target record) ∧
    ∃ member ∈ members, member.indirection = none ∧ schema.StandsFor member.type target

/-- A record contains another by value, over all its members. -/
def Contains (schema : Schema) (key target : Key) : Prop :=
  ∃ record, schema.HasRecord key record ∧ schema.ContainedIn record.members target

variable {document : Document} {typePrefix : String} {schema : Schema}

theorem HasRecord.isEnd {key : Key} {record : Record} (h : schema.HasRecord key record) :
    schema.document.IsEnd key := by
  obtain ⟨node, hdeclares, hrecord⟩ := h
  intro typedef hnode
  rw [hdeclares.2] at hnode
  obtain rfl : node = .typedef typedef := Option.some.inj hnode
  cases hrecord

theorem exists_hasRecord_iff (hload : ofDocument document typePrefix = .ok schema) {key : Key} :
    (∃ record, schema.HasRecord key record) ↔
      (schema.catalogue.get? key).any (fun entry ↦ entry.category.isRecord) = true := by
  rw [any_category_iff hload]
  constructor
  · rintro ⟨record, node, hdeclares, hrecord⟩
    exact ⟨node, hdeclares, by rw [← Node.isSome_record?, hrecord]; rfl⟩
  · rintro ⟨node, hdeclares, hcategory⟩
    rw [← Node.isSome_record?] at hcategory
    obtain ⟨record, hrecord⟩ := Option.isSome_iff_exists.mp hcategory
    exact ⟨record, node, hdeclares, hrecord⟩

/-- The keys with links are the records of the catalogue. -/
theorem get?_links_eq_some_iff (hload : ofDocument document typePrefix = .ok schema) {key : Key}
    {links : List Link} : schema.links.get? key = some links ↔
      ∃ record, schema.HasRecord key record ∧ schema.recordLinks record = links := by
  rw [Schema.links, Table.get?_filterMap, Option.bind_eq_some_iff]
  constructor
  · rintro ⟨entry, hentry, hlinks⟩
    split at hlinks
    · obtain ⟨record, hrecord, rfl⟩ := Option.map_eq_some_iff.mp hlinks
      obtain ⟨node, hnode, hrecord⟩ := Option.bind_eq_some_iff.mp hrecord
      exact ⟨record, ⟨node, ⟨Table.contains_iff.mpr ⟨entry, hentry⟩, hnode⟩, hrecord⟩, rfl⟩
    · cases hlinks
  · rintro ⟨record, hhas, rfl⟩
    have hany := (exists_hasRecord_iff hload).mp ⟨record, hhas⟩
    obtain ⟨entry, hentry, hcategory⟩ := (Option.any_eq_true _ _).mp hany
    obtain ⟨node, hdeclares, hrecord⟩ := hhas
    refine ⟨entry, hentry, ?_⟩
    rw [if_pos hcategory, hdeclares.2, Option.bind_some, hrecord, Option.map_some]

/-- The records with links are those of the catalogue, in its order. -/
theorem keys_links_eq_filter (hload : ofDocument document typePrefix = .ok schema) :
    schema.links.keys = schema.catalogue.keys.filter schema.isRecordKey := by
  rw [links, Table.keys_filterMap, Table.keys, List.filter_map]
  refine congrArg (List.map Prod.fst) (List.filter_congr fun entry hentry ↦ ?_)
  have hget : schema.catalogue.get? entry.1 = some entry.2 := Table.get?_eq_some_iff.mpr hentry
  obtain ⟨node, hnode, -, hcategory⟩ := (get?_catalogue_eq_some_iff hload).mp hget
  simp only [Function.comp_apply, isRecordKey, hget, hnode, hcategory, Option.any_some,
    Option.bind_some]
  split
  · rename_i hrecord
    rw [Option.isSome_map, Node.isSome_record?]
  · rename_i hrecord
    exact (Bool.eq_false_iff.mpr hrecord).symm

/-- The links are those of the records, in the order of the document. -/
theorem keys_links (hload : ofDocument document typePrefix = .ok schema) :
    schema.links.keys = document.recordKeys := by
  rw [keys_links_eq_filter hload]
  obtain ⟨-, rfl, hcatalogue⟩ := ofDocument_eq_ok_iff.mp hload
  have hentries := Catalogue.entries_ofDocument hcatalogue
  rw [Table.keys, hentries, List.map_map, List.filter_map]
  refine congrArg (List.map Prod.fst) (List.filter_congr fun declared hdeclared ↦ ?_)
  have hget : schema.catalogue.get? declared.1 =
      some (Catalogue.entryOf typePrefix declared).2 := by
    rw [Table.get?_eq_some_iff, hentries]
    exact List.mem_map_of_mem hdeclared
  simp only [Function.comp_apply, Catalogue.entryOf, isRecordKey, hget, Option.any_some]

theorem mem_keys_links_iff (hload : ofDocument document typePrefix = .ok schema) {key : Key} :
    key ∈ schema.links.keys ↔ ∃ record, schema.HasRecord key record := by
  rw [Table.mem_keys_iff]
  simp only [get?_links_eq_some_iff hload]
  constructor
  · rintro ⟨links, record, hhas, -⟩
    exact ⟨record, hhas⟩
  · rintro ⟨record, hhas⟩
    exact ⟨_, record, hhas, rfl⟩

theorem mem_heldBy_iff {links : Table (List Link)} {key target : Key} :
    target ∈ heldBy links key ↔ ∃ held, links.get? key = some held ∧ Link.Holding held target := by
  rw [heldBy]
  cases links.get? key with
  | none => simp
  | some held =>
    simp only [Option.getD_some, List.mem_map, List.mem_filter, Option.some.injEq, exists_eq_left',
      Link.Holding]
    constructor
    · rintro ⟨link, ⟨hlink, hvalue⟩, htarget⟩
      exact ⟨link, hlink, htarget, hvalue⟩
    · rintro ⟨link, hlink, htarget, hvalue⟩
      exact ⟨link, ⟨hlink, hvalue⟩, htarget⟩

/-- The links of a record hold another by value when one of its members does, wherever it
stands. -/
theorem holding_recordLinks_iff {record : Record} {target : Key} :
    Link.Holding (schema.recordLinks record) target ↔
      ∃ member ∈ record.members, schema.link? member = some ⟨target, true⟩ := by
  rw [recordLinks, Link.holding_foldl_merge]
  simp only [Link.Holding, List.mem_filterMap]
  constructor
  · rintro (⟨_, hnil, -⟩ | ⟨⟨_, _⟩, ⟨member, hmember, hlink⟩, rfl, rfl⟩)
    · cases hnil
    · exact ⟨member, hmember, hlink⟩
  · rintro ⟨member, hmember, hlink⟩
    exact .inr ⟨_, ⟨member, hmember, hlink⟩, rfl, rfl⟩

theorem holds_iff (hload : ofDocument document typePrefix = .ok schema) {key target : Key} :
    schema.Holds key target ↔ ∃ record, schema.HasRecord key record ∧
      ∃ member ∈ record.members, schema.link? member = some ⟨target, true⟩ := by
  rw [Holds, mem_heldBy_iff]
  simp only [get?_links_eq_some_iff hload]
  constructor
  · rintro ⟨_, ⟨record, hhas, rfl⟩, hholding⟩
    exact ⟨record, hhas, holding_recordLinks_iff.mp hholding⟩
  · rintro ⟨record, hhas, hmember⟩
    exact ⟨_, ⟨record, hhas, rfl⟩, holding_recordLinks_iff.mpr hmember⟩

theorem link?_eq_some_iff (hload : ofDocument document typePrefix = .ok schema) {member : Member}
    {link : Link} : schema.link? member = some link ↔
      (∃ record, schema.HasRecord link.target record) ∧
        (schema.document.expand member.type).target = link.target ∧
        (member.isByValue && (schema.document.expand member.type).isDirect) = link.byValue := by
  obtain ⟨target, byValue⟩ := link
  rw [exists_hasRecord_iff hload, link?]
  cases hentry : schema.catalogue.get? (schema.document.expand member.type).target with
  | none =>
    simp only [reduceCtorEq, false_iff]
    rintro ⟨hany, rfl, -⟩
    simp [hentry] at hany
  | some entry =>
    by_cases hcategory : entry.category.isRecord = true
    · simp only [hcategory, if_true, Option.some.injEq, Link.mk.injEq]
      constructor
      · rintro ⟨rfl, rfl⟩
        exact ⟨by simp [hentry, hcategory], rfl, rfl⟩
      · rintro ⟨-, rfl, rfl⟩
        exact ⟨rfl, rfl⟩
    · simp only [hcategory, Bool.false_eq_true, if_false, reduceCtorEq, false_iff]
      rintro ⟨hany, rfl, -⟩
      simp [hentry, hcategory] at hany

/-- A record holds another by value when the type of a member that does not point
unfolds to it. -/
theorem holds_iff_unfolds (hload : ofDocument document typePrefix = .ok schema)
    {key target : Key} : schema.Holds key target ↔
      ∃ record, schema.HasRecord key record ∧ (∃ other, schema.HasRecord target other) ∧
        ∃ member ∈ record.members, member.indirection = none ∧
          schema.document.Unfolds member.type target := by
  rw [holds_iff hload]
  constructor
  · rintro ⟨record, hhas, member, hmember, hlink⟩
    obtain ⟨⟨other, htarget⟩, hexpand, hvalue⟩ := (link?_eq_some_iff hload).mp hlink
    rw [Bool.and_eq_true] at hvalue
    exact ⟨record, hhas, ⟨other, htarget⟩, member, hmember,
      Option.isNone_iff_eq_none.mp hvalue.1,
      (Document.unfolds_iff_expand htarget.isEnd).mpr ⟨hexpand, hvalue.2⟩⟩
  · rintro ⟨record, hhas, ⟨other, htarget⟩, member, hmember, hdirect, hunfolds⟩
    obtain ⟨hexpand, hvalue⟩ := (Document.unfolds_iff_expand htarget.isEnd).mp hunfolds
    refine ⟨record, hhas, member, hmember, ?_⟩
    refine (link?_eq_some_iff hload).mpr ⟨⟨other, htarget⟩, hexpand, ?_⟩
    rw [hvalue, Member.isByValue, hdirect]
    rfl

/-- The links tell what members contain by value. -/
theorem holds_of_contains (hload : ofDocument document typePrefix = .ok schema) {key target : Key}
    (h : schema.Contains key target) : schema.Holds key target := by
  obtain ⟨record, hhas, htarget, member, hmember, hdirect, hstands⟩ := h
  exact (holds_iff_unfolds hload).mpr
    ⟨record, hhas, htarget, member, hmember, hdirect, hstands.unfolds⟩

theorem Holds.hasRecord (hload : ofDocument document typePrefix = .ok schema) {key target : Key}
    (h : schema.Holds key target) :
    (∃ record, schema.HasRecord key record) ∧ ∃ record, schema.HasRecord target record := by
  obtain ⟨record, hhas, member, -, hlink⟩ := (holds_iff hload).mp h
  exact ⟨⟨record, hhas⟩, ((link?_eq_some_iff hload).mp hlink).1⟩

end Schema

end ApiHeader
