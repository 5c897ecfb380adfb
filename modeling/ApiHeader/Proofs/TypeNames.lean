import ApiHeader.Proofs.DeclaredFirst
import ApiHeader.Proofs.Exclusion
import ApiHeader.Proofs.Registration
import Mathlib.Data.List.Perm.Basic

/-!
# Names that a header introduces

A header introduces reserved names, the names of the types that are kept, a name for sets
of bits for each bitmask among these, and perhaps the names of types of pointers to
functions (`perm_typeNames`). Loading compares the names of types with each other and
with nothing else. So a name can be introduced twice, in the ways that
`type_names_distinct_iff` tells: a type may have a reserved name, the name for the bits
of another type or that of a type of function pointers, and two functions may have the
same name.
-/

set_option autoImplicit false
set_option relaxedAutoImplicit false

namespace ApiHeader

/-- The names that every header introduces: those of the word types and of the links. -/
def Settings.reservedNames (settings : Settings) : List String :=
  ["Flags", "Bool", "ChainedStruct", "ChainedStructOut"].map (settings.typePrefix ++ ·)

theorem Settings.nodup_reservedNames (settings : Settings) : settings.reservedNames.Nodup := by
  have hendings : ["Flags", "Bool", "ChainedStruct", "ChainedStructOut"].Nodup := by decide
  exact hendings.map fun first second h ↦ (String.append_right_inj _).mp h

namespace Header

/-- The names of types that the lines of a header introduce, in order. -/
def typeNames (settings : Settings) (header : Header) : List String :=
  (header.lines settings).flatMap (Line.introduces settings.typePrefix)

/-- The names of the types of pointers to functions, if a header has these. -/
def procNames (settings : Settings) (header : Header) : List String :=
  if settings.procs then
    header.prototypes.map fun prototype ↦ settings.typePrefix ++ "Proc" ++ prototype.stem
  else []

theorem nodup_procNames_iff (settings : Settings) (header : Header) :
    (header.procNames settings).Nodup ↔
      (settings.procs = true → (header.prototypes.map Prototype.stem).Nodup) := by
  rw [procNames]
  split
  · rename_i hprocs
    have hmap : (header.prototypes.map fun prototype ↦
        settings.typePrefix ++ "Proc" ++ prototype.stem) =
          (header.prototypes.map Prototype.stem).map (settings.typePrefix ++ "Proc" ++ ·) := by
      rw [List.map_map]
      rfl
    rw [hmap, List.nodup_map_iff fun first second h ↦ (String.append_right_inj _).mp h]
    simp [hprocs]
  · rename_i hprocs
    simp [hprocs]

/-- No type of function pointers has a reserved name. -/
theorem notMem_procNames (settings : Settings) (header : Header) {name : String}
    (hname : name ∈ settings.reservedNames) : name ∉ header.procNames settings := by
  intro hproc
  rw [procNames] at hproc
  split at hproc
  · obtain ⟨ending, hending, rfl⟩ := List.mem_map.mp hname
    obtain ⟨prototype, -, hsame⟩ := List.mem_map.mp hproc
    rw [String.append_assoc, String.append_right_inj] at hsame
    have hfirst := congrArg (fun text : String ↦ text.toList.head?) hsame
    simp only [String.toList_append, List.head?_append] at hfirst
    simp only [List.mem_cons, List.not_mem_nil, or_false] at hending
    rcases hending with rfl | rfl | rfl | rfl <;> simp at hfirst
  · cases hproc

end Header

namespace Schema

variable {document : Document} {typePrefix : String} {schema : Schema} {settings : Settings}
  {header : Header}

/-- The names of the types that are kept. -/
def keptNames (schema : Schema) (settings : Settings) : List String :=
  (schema.keptTypes settings).map DeclaredType.name

/-- The names for sets of the bits of bitmasks that are kept. -/
def setNames (schema : Schema) (settings : Settings) : List String :=
  ((schema.keptTypes settings).filter (·.node.category = .bitmask)).map (·.name ++ "Flags")

/-! ### The types that are kept -/

theorem mem_keptTypes_iff {type : DeclaredType} : type ∈ schema.keptTypes settings ↔
    schema.type? type.key = some type ∧ settings.keeps type.node.tags = true := by
  rw [keptTypes, List.mem_filter, List.mem_filterMap]
  refine and_congr_left fun _ ↦ ⟨?_, fun htype ↦ ⟨_, mem_catalogue_keys htype, htype⟩⟩
  rintro ⟨key, -, htype⟩
  rwa [(declares_of_type? htype).1]

theorem sublist_keys_keptTypes (schema : Schema) (settings : Settings) :
    ((schema.keptTypes settings).map DeclaredType.key).Sublist schema.catalogue.keys := by
  have hkeys : ∀ keys : List Key,
      ((keys.filterMap schema.type?).map DeclaredType.key).Sublist keys := by
    intro keys
    induction keys with
    | nil => exact .slnil
    | cons key keys ih =>
      cases htype : schema.type? key with
      | none =>
        rw [List.filterMap_cons_none htype]
        exact ih.cons key
      | some type =>
        rw [List.filterMap_cons_some htype, List.map_cons, (declares_of_type? htype).1]
        exact ih.cons_cons key
  exact (List.filter_sublist.map _).trans (hkeys _)

theorem name_of_type? (hload : ofDocument document typePrefix = .ok schema) {key : Key}
    {type : DeclaredType} (htype : schema.type? key = some type) :
    type.name = typeName typePrefix key := by
  obtain ⟨-, -, entry, hentry, hname⟩ := type?_eq_some_iff.mp htype
  obtain ⟨node, -, -, rfl⟩ := (get?_catalogue_eq_some_iff hload).mp hentry
  exact hname.symm

theorem map_name_of_subset (hload : ofDocument document typePrefix = .ok schema)
    {types : List DeclaredType} (hkept : types ⊆ schema.keptTypes settings) :
    types.map DeclaredType.name = (types.map DeclaredType.key).map (typeName typePrefix) := by
  rw [List.map_map]
  exact List.map_congr_left fun type htype ↦
    name_of_type? hload (mem_keptTypes_iff.mp (hkept htype)).1

/-- Loading has compared the names of types. -/
theorem nodup_keptNames (hload : ofDocument document typePrefix = .ok schema)
    (settings : Settings) : (schema.keptNames settings).Nodup := by
  obtain ⟨-, hcases⟩ := exists_ofDocument_eq_ok_iff.mp ⟨schema, hload⟩
  obtain ⟨-, -, hcatalogue⟩ := ofDocument_eq_ok_iff.mp hload
  have hkeys : schema.catalogue.keys =
      (Catalogue.registered document.entries).map Prod.fst := by
    rw [Table.keys, Catalogue.entries_ofDocument hcatalogue, List.map_map]
    rfl
  rw [keptNames, map_name_of_subset hload (List.Subset.refl _)]
  refine List.Nodup.sublist ((schema.sublist_keys_keptTypes settings).map _) ?_
  rw [hkeys, List.map_map]
  have hprefixed := hcases.map fun first second (h : typePrefix ++ first = typePrefix ++ second) ↦
    (String.append_right_inj _).mp h
  rwa [List.map_map] at hprefixed

theorem nodup_setNames (hload : ofDocument document typePrefix = .ok schema)
    (settings : Settings) : (schema.setNames settings).Nodup := by
  have hsets : (schema.setNames settings).Sublist
      ((schema.keptNames settings).map (· ++ "Flags")) := by
    rw [keptNames, List.map_map]
    exact List.filter_sublist.map _
  refine List.Nodup.sublist hsets ((nodup_keptNames hload settings).map fun first second h ↦ ?_)
  exact (String.append_left_inj _).mp h

/-! ### What the sections introduce -/

theorem flatMap_introduces_itemLines (typePrefix : String) (items : List Item) :
    (itemLines items).flatMap (Line.introduces typePrefix) =
      items.flatMap fun item ↦ item.declaration.introduces typePrefix := by
  rw [itemLines, List.flatMap_map]
  rfl

/-- A section in the order of the catalogue introduces names type by type. -/
theorem flatMap_introduces_of_catalogue {own : DeclaredType → List Declaration}
    {items : List Item} (hitems : .ok items =
      gather (schema.typeBlock settings fun type ↦ .ok (own type)) schema.catalogue.keys) :
    (items.flatMap fun item ↦ item.declaration.introduces settings.typePrefix) =
      (schema.keptTypes settings).flatMap fun type ↦
        (own type).flatMap (Declaration.introduces settings.typePrefix) := by
  obtain rfl := Except.ok.inj (hitems.trans (schema.ok_flatMap_keptTypes settings own).symm)
  rw [List.flatMap_assoc]
  refine congrArg (List.flatMap · _) (funext fun type ↦ ?_)
  rw [List.flatMap_map]

/-- The aliases have the keys of the types that are aliases, in another order. -/
theorem perm_keys_aliases (hload : ofDocument document typePrefix = .ok schema)
    (hok : (schema.header settings).result = .ok header) :
    (header.aliases.map Item.key).Perm
      (((schema.keptTypes settings).filter (·.node.category.isAlias)).map DeclaredType.key) := by
  obtain ⟨-, -, haliases, -⟩ := header_eq_ok_iff.mp hok
  have hnodup : (((schema.keptTypes settings).filter (·.node.category.isAlias)).map
      DeclaredType.key).Nodup :=
    schema.catalogue.nodup.sublist
      ((List.filter_sublist.map _).trans (schema.sublist_keys_keptTypes settings))
  rw [List.perm_ext_iff_of_nodup (nodup_keys_aliases haliases) hnodup]
  intro key
  simp only [List.mem_map, List.mem_filter, mem_keptTypes_iff]
  constructor
  · rintro ⟨item, hitem, rfl⟩
    obtain ⟨type, htype, hkeeps, hline⟩ := isAliasLine_of_mem_aliases haliases hitem
    obtain ⟨hkey, -⟩ := declares_of_type? htype
    refine ⟨type, ⟨⟨hkey ▸ htype, hkeeps⟩, ?_⟩, hkey⟩
    rcases hline with ⟨typedef, _, hnode, -⟩ | ⟨signature, _, _, hpointer, -⟩
    · rw [hnode]
      rfl
    · exact isAlias_of_pointer? hpointer
  · rintro ⟨type, ⟨⟨htype, hkeeps⟩, halias⟩, rfl⟩
    obtain ⟨line, -, hgives⟩ := gives_aliases hload haliases htype hkeeps halias
    exact ⟨_, hgives.mem (List.mem_singleton_self line), rfl⟩

theorem perm_aliases (hload : ofDocument document typePrefix = .ok schema)
    (hok : (schema.header settings).result = .ok header) :
    (header.aliases.flatMap fun item ↦ item.declaration.introduces settings.typePrefix).Perm
      (((schema.keptTypes settings).filter (·.node.category.isAlias)).map DeclaredType.name) := by
  obtain ⟨-, -, haliases, -⟩ := header_eq_ok_iff.mp hok
  have hnames : (header.aliases.flatMap fun item ↦
      item.declaration.introduces settings.typePrefix) =
        (header.aliases.map Item.key).map (typeName typePrefix) := by
    rw [List.map_map, List.map_eq_flatMap]
    refine List.flatMap_congr fun item hitem ↦ ?_
    obtain ⟨type, htype, -⟩ := isAliasLine_of_mem_aliases haliases hitem
    rw [introduces_of_isAliasLine (isAliasLine_of_mem_aliases haliases hitem) htype,
      name_of_type? hload htype]
    rfl
  have hkept : (schema.keptTypes settings).filter (·.node.category.isAlias) ⊆
      schema.keptTypes settings := List.filter_sublist.subset
  rw [hnames, map_name_of_subset hload hkept]
  exact (perm_keys_aliases hload hok).map _

theorem map_filter_eq_flatMap {α β : Type} (p : α → Bool) (f : α → β) (as : List α) :
    (as.filter p).map f = as.flatMap fun a ↦ if p a then [f a] else [] := by
  induction as with
  | nil => rfl
  | cons a as ih => by_cases h : p a <;> simp [h, ih]

/-- A type introduces its name, and a bitmask also the one for sets of its bits. -/
theorem introduces_of_registered (settings : Settings) {type : DeclaredType}
    (hregistered : type.node.category.isRegistered = true) :
    ((openingDeclarations settings type).flatMap (Declaration.introduces settings.typePrefix) ++
      if type.node.category.isAlias then [type.name] else []) =
    type.name :: if type.node.category = .bitmask then [type.name ++ "Flags"] else [] := by
  obtain ⟨key, name, node⟩ := type
  cases node <;> first | rfl | cases hregistered

theorem perm_types (hload : ofDocument document typePrefix = .ok schema)
    (hok : (schema.header settings).result = .ok header) :
    (((header.handles ++ (header.forwards ++ header.enumerations)).flatMap fun item ↦
        item.declaration.introduces settings.typePrefix) ++
      header.aliases.flatMap fun item ↦ item.declaration.introduces settings.typePrefix).Perm
      (schema.keptNames settings ++ schema.setNames settings) := by
  obtain ⟨-, -, -, -, -, hhandles, hforwards, henumerations⟩ := header_eq_ok_iff.mp hok
  have hopening : ((header.handles ++ (header.forwards ++ header.enumerations)).flatMap fun item ↦
      item.declaration.introduces settings.typePrefix).Perm
        ((schema.keptTypes settings).flatMap fun type ↦ (openingDeclarations settings type).flatMap
          (Declaration.introduces settings.typePrefix)) := by
    rw [List.flatMap_append, List.flatMap_append, ← hhandles, ← hforwards, ← henumerations,
      flatMap_introduces_of_catalogue (schema.handles_eq_gather settings),
      flatMap_introduces_of_catalogue (schema.forwards_eq_gather settings),
      flatMap_introduces_of_catalogue (schema.enumerations_eq_gather settings)]
    refine ((List.flatMap_append_perm _ _ _).append_left _).trans
      ((List.flatMap_append_perm _ _ _).trans (.of_eq ?_))
    simp only [openingDeclarations, List.flatMap_append]
  refine (hopening.append (perm_aliases hload hok)).trans ?_
  -- Sort both sides by type; then the names of one type are the same.
  rw [map_filter_eq_flatMap]
  refine (List.flatMap_append_perm _ _ _).trans ?_
  rw [setNames, map_filter_eq_flatMap, keptNames]
  refine List.Perm.trans (.of_eq ?_) (List.map_append_flatMap_perm _ _ _).symm
  refine List.flatMap_congr fun type htype ↦ ?_
  obtain ⟨htype, -⟩ := mem_keptTypes_iff.mp htype
  have hregisters := ((declares_iff hload).mp (declares_of_type? htype).2).2
  rw [introduces_of_registered settings (Bool.and_eq_true_iff.mp hregisters).1]
  simp only [decide_eq_true_eq]

/-- All names that a header introduces, sorted by where they come from. -/
theorem perm_typeNames (hload : ofDocument document typePrefix = .ok schema)
    (hok : (schema.header settings).result = .ok header) :
    (header.typeNames settings).Perm (settings.reservedNames ++ (schema.keptNames settings ++
      (schema.setNames settings ++ header.procNames settings))) := by
  obtain ⟨-, hconstants, -, hlinks, hrecords, -⟩ := header_eq_ok_iff.mp hok
  have hnone : (header.constants.flatMap fun item ↦
      item.declaration.introduces settings.typePrefix) = [] := by
    refine List.flatMap_eq_nil_iff.mpr fun item hitem ↦ ?_
    obtain ⟨-, _, _, _, hdeclaration⟩ := constant_of_mem_constants hconstants hitem
    rw [hdeclaration, Declaration.introduces]
  have hbodies : (header.records.flatMap fun item ↦
      item.declaration.introduces settings.typePrefix) = [] := by
    refine List.flatMap_eq_nil_iff.mpr fun item hitem ↦ ?_
    obtain ⟨_, _, _, -, -, -, -, hdeclaration⟩ := isBody_of_mem_records hrecords hitem
    rw [hdeclaration, Declaration.introduces]
  obtain ⟨tag, -, htags⟩ := chainLinks_eq_ok settings hlinks
  have hprocs : ((if settings.procs then header.prototypes.map Line.proc else []).flatMap
      (Line.introduces settings.typePrefix)) = header.procNames settings := by
    rw [Header.procNames]
    split
    · rw [List.flatMap_map, List.map_eq_flatMap]
      rfl
    · rfl
  have hnames : header.typeNames settings = settings.wordTypes ++
      ((header.handles ++ (header.forwards ++ header.enumerations)).flatMap (fun item ↦
        item.declaration.introduces settings.typePrefix) ++
      (header.aliases.flatMap (fun item ↦ item.declaration.introduces settings.typePrefix) ++
        ([Direction.inward.link.text settings.typePrefix,
          Direction.outward.link.text settings.typePrefix] ++ header.procNames settings))) := by
    simp only [Header.typeNames, Header.lines, Header.openingLines, Header.closingLines,
      List.flatMap_append, flatMap_introduces_itemLines, hnone, hbodies, htags, hprocs]
    simp [List.flatMap_map, Line.introduces, Declaration.introduces]
  have hreserved : settings.reservedNames = settings.wordTypes ++
      [Direction.inward.link.text settings.typePrefix,
        Direction.outward.link.text settings.typePrefix] := rfl
  rw [hnames, hreserved, List.append_assoc, ← List.append_assoc (schema.keptNames settings)]
  refine List.Perm.append_left _ (.trans ?_ (List.perm_append_comm_assoc _ _ _))
  rw [← List.append_assoc]
  exact (perm_types hload hok).append_right _

/-- The names that a header introduces are distinct but for these cases: a type or a set
of bits has a reserved name, a set of bits has the name of a type, two functions have the
same stem, or the type of pointers to a function has the name of a type or of a set of
bits. -/
theorem type_names_distinct_iff (hload : ofDocument document typePrefix = .ok schema)
    (hok : (schema.header settings).result = .ok header) :
    (header.typeNames settings).Perm (settings.reservedNames ++ (schema.keptNames settings ++
      (schema.setNames settings ++ header.procNames settings))) ∧
    ((header.typeNames settings).Nodup ↔
      (∀ name ∈ schema.keptNames settings ++ schema.setNames settings,
        name ∉ settings.reservedNames) ∧
      (∀ name ∈ schema.setNames settings, name ∉ schema.keptNames settings) ∧
      (settings.procs = true → (header.prototypes.map Prototype.stem).Nodup) ∧
      ∀ name ∈ header.procNames settings,
        name ∉ schema.keptNames settings ++ schema.setNames settings) := by
  have hperm := perm_typeNames hload hok
  refine ⟨hperm, ?_⟩
  rw [hperm.nodup_iff, List.nodup_append', List.nodup_append', List.nodup_append',
    header.nodup_procNames_iff]
  constructor
  · rintro ⟨-, ⟨-, ⟨-, hstems, hsets⟩, hkept⟩, hreserved⟩
    refine ⟨fun name hname hmem ↦ hreserved hmem ?_, fun name hset hmem ↦ hkept hmem ?_, hstems,
      fun name hproc hmem ↦ ?_⟩
    · rw [← List.append_assoc]
      exact List.mem_append_left _ hname
    · exact List.mem_append_left _ hset
    · rcases List.mem_append.mp hmem with hmem | hmem
      · exact hkept hmem (List.mem_append_right _ hproc)
      · exact hsets hmem hproc
  · rintro ⟨hreserved, hsets, hstems, hprocs⟩
    refine ⟨settings.nodup_reservedNames, ⟨nodup_keptNames hload settings,
      ⟨nodup_setNames hload settings, hstems, fun name hset hproc ↦ ?_⟩,
      fun name hmem hrest ↦ ?_⟩, fun name hmem hrest ↦ ?_⟩
    · exact hprocs name hproc (List.mem_append_right _ hset)
    · rcases List.mem_append.mp hrest with hset | hproc
      · exact hsets name hset hmem
      · exact hprocs name hproc (List.mem_append_left _ hmem)
    · rw [← List.append_assoc] at hrest
      rcases List.mem_append.mp hrest with hname | hproc
      · exact hreserved name hname hmem
      · exact header.notMem_procNames settings hmem hproc

/-- A bitmask, a record and an object, with types of function pointers. -/
theorem tagged_type_names_distinct :
    ∃ header, (tagged.header (Settings.standard.withProcs true)).result = .ok header ∧
      (header.typeNames (Settings.standard.withProcs true)).Nodup := by
  have hload : ofDocument tagged.document "WGPU" = .ok tagged := rfl
  have hwritten : (tagged.header (Settings.standard.withProcs true)).result.isOk = true := by
    decide +kernel
  obtain ⟨header, hok⟩ := exists_ok_of_isOk hwritten
  have hstems : (tagged.header (Settings.standard.withProcs true)).result.map
      (·.prototypes.map Prototype.stem) = .ok ["DeviceTrace", "DeviceRun"] := by decide +kernel
  rw [hok] at hstems
  have hprototypes : header.prototypes.map Prototype.stem = ["DeviceTrace", "DeviceRun"] :=
    Except.ok.inj hstems
  have hprocs : header.procNames (Settings.standard.withProcs true) =
      ["WGPUProcDeviceTrace", "WGPUProcDeviceRun"] := by
    have hmap := congrArg (List.map ("WGPUProc" ++ ·)) hprototypes
    rw [List.map_map] at hmap
    exact hmap
  refine ⟨header, hok, (type_names_distinct_iff hload hok).2.mpr ⟨?_, ?_, fun _ ↦ ?_, ?_⟩⟩
  · decide +kernel
  · decide +kernel
  · rw [hprototypes]
    decide
  · rw [hprocs]
    decide +kernel

/-- A bitmask, and an object with the name for sets of its bits. -/
def overlapping : Schema where
  document := ⟨[("usage", .bitmask ⟨[], []⟩), ("usage flags", .object ⟨[], []⟩)], by decide⟩
  catalogue := ⟨[("usage", ⟨"WGPUUsage", .bitmask⟩),
    ("usage flags", ⟨"WGPUUsageFlags", .object⟩)], by decide⟩

/-- The document is loaded and has a header, which introduces one name twice. -/
theorem overlapping_not_distinct : ofDocument overlapping.document "WGPU" = .ok overlapping ∧
    ∃ header, (overlapping.header .standard).result = .ok header ∧
      (header.typeNames .standard).count "WGPUUsageFlags" = 2 ∧
      ¬ (header.typeNames .standard).Nodup := by
  have hcount : (overlapping.header .standard).result.map
      (fun header ↦ (header.typeNames .standard).count "WGPUUsageFlags") = .ok 2 := by
    decide +kernel
  have hwritten : (overlapping.header .standard).result.isOk = true := by decide +kernel
  obtain ⟨header, hok⟩ := exists_ok_of_isOk hwritten
  rw [hok] at hcount
  have htwice : (header.typeNames .standard).count "WGPUUsageFlags" = 2 := Except.ok.inj hcount
  refine ⟨rfl, header, hok, htwice, fun hnodup ↦ ?_⟩
  have honce := List.nodup_iff_count_le_one.mp hnodup "WGPUUsageFlags"
  omega

end Schema

end ApiHeader
