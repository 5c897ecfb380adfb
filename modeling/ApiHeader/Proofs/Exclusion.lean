import ApiHeader.Proofs.Lines
import ApiHeader.Proofs.Success
import ApiHeader.Proofs.Thinning

/-!
# Excluding more tags

A header with more tags excluded has the declarations of the first one, in the same
order, without those that are left out (`exclusion_only_filters`). For functions and
methods, `source?` finds what a prototype is made from by its stem, which no other
method of the object has.
-/

set_option autoImplicit false
set_option relaxedAutoImplicit false

namespace ApiHeader.Schema

variable {document : Document} {typePrefix : String} {schema : Schema} {settings : Settings}
  {wider : Exclusion}

/-! ### Functions and methods -/

/-- What a prototype is made from: the tags that decide whether it is written, and the
arguments. -/
structure Source where
  tags : List Tag
  arguments : List Member

/-- The function of a prototype, or the method with its stem. A method goes with its
object. -/
def source? (schema : Schema) (prototype : Prototype) : Option Source :=
  match schema.document.get? prototype.key with
  | some (.function signature) => some ⟨signature.tags, signature.arguments⟩
  | some (.object object) =>
    (object.methods.find? fun method ↦
      Text.pascalCase prototype.key ++ Text.pascalCase method.name = prototype.stem).map
        fun method ↦ ⟨object.tags ++ method.tags, method.arguments⟩
  | _ => none

/-- The function or method of a prototype carries an excluded tag, or the object does. -/
def ExcludesPrototype (schema : Schema) (settings : Settings) (prototype : Prototype) : Prop :=
  ∃ source, schema.source? prototype = some source ∧
    settings.exclusion.excludes source.tags = true

instance decidableExcludesPrototype (schema : Schema) (settings : Settings)
    (prototype : Prototype) : Decidable (schema.ExcludesPrototype settings prototype) :=
  decidable_of_iff
    ((schema.source? prototype).any (fun source ↦ settings.exclusion.excludes source.tags) = true)
    (Option.any_eq_true _ _)

/-- What a prototype becomes when more tags are excluded. -/
structure PrototypeBecomes (schema : Schema) (settings : Settings) (wider : Exclusion)
    (prototype other : Prototype) : Prop where
  key : other.key = prototype.key
  stem : other.stem = prototype.stem
  returns : other.returns = prototype.returns
  parameters : other.parameters.Sublist prototype.parameters
  same : ∃ source, schema.source? prototype = some source ∧
    (SameParts settings wider (source.arguments.map Member.tags) → other = prototype)

abbrev ThinsPrototypes (schema : Schema) (settings : Settings) (wider : Exclusion)
    (x y : Except HeaderError (List Prototype)) : Prop :=
  Thins (schema.ExcludesPrototype (settings.withExclusion wider))
    (schema.PrototypeBecomes settings wider) x y

theorem source?_function {prototype : Prototype} {signature : Signature}
    (hnode : schema.document.get? prototype.key = some (.function signature)) :
    schema.source? prototype = some ⟨signature.tags, signature.arguments⟩ := by
  rw [source?, hnode]

theorem source?_method (hload : ofDocument document typePrefix = .ok schema)
    {prototype : Prototype} {object : Object} {method : Method}
    (hnode : schema.document.get? prototype.key = some (.object object))
    (hmethod : method ∈ object.methods) (hstem : prototype.stem =
      Text.pascalCase prototype.key ++ Text.pascalCase method.name) :
    schema.source? prototype = some ⟨object.tags ++ method.tags, method.arguments⟩ := by
  have hfind : (object.methods.find? fun other ↦
      Text.pascalCase prototype.key ++ Text.pascalCase other.name = prototype.stem) =
        some method := by
    cases hfound : object.methods.find? _ with
    | none =>
      have hnone := List.find?_eq_none.mp hfound method hmethod
      rw [hstem] at hnone
      simp at hnone
    | some found =>
      have hspelled := List.find?_some hfound
      rw [decide_eq_true_eq, hstem, String.append_right_inj] at hspelled
      rw [method_eq_of_pascalCase_eq hload hnode (List.mem_of_find?_eq_some hfound) hmethod
        hspelled]
  simp only [source?, hnode, hfind, Option.map_some]

theorem not_excludesPrototype {prototype : Prototype} {source : Source}
    (hsource : schema.source? prototype = some source)
    (hstays : wider.excludes source.tags = false) :
    ¬ schema.ExcludesPrototype (settings.withExclusion wider) prototype := by
  rintro ⟨found, hfound, hexcludes⟩
  obtain rfl : source = found := Option.some.inj (hsource.symm.trans hfound)
  rw [Settings.withExclusion, hstays] at hexcludes
  cases hexcludes

section Signature

variable {key : Key} {stem context : String} {front : List Declarator} {returns : Option String}
  {arguments : List Member}

/-- A prototype goes or stays with what it is made from. The tags `own` are those of
its signature, and they decide when its object is kept. -/
theorem thins_signature (hwider : settings.exclusion.tags ⊆ wider.tags) {own tags : List Tag}
    (hsource : ∀ prototype : Prototype, prototype.key = key → prototype.stem = stem →
      schema.source? prototype = some ⟨tags, arguments⟩)
    (hown : wider.excludes tags = wider.excludes own) :
    schema.ThinsPrototypes settings wider
      (keptBlock settings own
        (schema.signaturePrototype settings key stem context front returns arguments >>=
          fun prototype ↦ pure [prototype]))
      (keptBlock (settings.withExclusion wider) own
        (schema.signaturePrototype (settings.withExclusion wider) key stem context front returns
          arguments >>= fun prototype ↦ pure [prototype])) := by
  refine Thins.keptBlock hwider ?_ ?_
  · intro hexcludes prototypes hprototypes prototype hmem
    obtain ⟨only, honly, hprototypes⟩ := bind_eq_ok_iff.mp hprototypes
    obtain rfl := Except.ok.inj hprototypes
    obtain rfl := List.mem_singleton.mp hmem
    obtain ⟨result, parameters, -, -, rfl⟩ := signaturePrototype_eq_ok_iff.mp honly
    exact ⟨_, hsource _ rfl rfl, hown.trans hexcludes⟩
  · intro hstays
    refine Thins.singleton fun prototype hprototype ↦ ?_
    obtain ⟨result, parameters, hresult, hparameters, rfl⟩ :=
      signaturePrototype_eq_ok_iff.mp hprototype
    obtain ⟨rest, hrest, hsub, hsame⟩ := declarators_wider hwider hparameters
    refine ⟨not_excludesPrototype (hsource _ rfl rfl) (hown.trans hstays),
      ⟨key, stem, result, front ++ rest⟩, ?_, ?_⟩
    · exact signaturePrototype_eq_ok_iff.mpr ⟨result, rest, hresult, hrest, rfl⟩
    · exact ⟨rfl, rfl, rfl, hsub.append_left front, _, hsource _ rfl rfl,
        fun hparts ↦ by rw [hsame hparts]⟩

end Signature

theorem thins_functionBlock (hwider : settings.exclusion.tags ⊆ wider.tags) {key : Key}
    {node : Node} (hnode : schema.document.get? key = some node) :
    schema.ThinsPrototypes settings wider
      (keptBlock settings node.tags (schema.functionBlock settings (key, node)))
      (keptBlock (settings.withExclusion wider) node.tags
        (schema.functionBlock (settings.withExclusion wider) (key, node))) := by
  cases node with
  | function signature =>
    refine thins_signature hwider ?_ rfl
    rintro prototype rfl -
    exact source?_function hnode
  | _ => exact Thins.keptBlock hwider (by simp [functionBlock]) fun _ ↦ Thins.nil

theorem thins_objectBlock (hload : ofDocument document typePrefix = .ok schema)
    (hwider : settings.exclusion.tags ⊆ wider.tags) {key : Key} {node : Node}
    (hnode : schema.document.get? key = some node) :
    schema.ThinsPrototypes settings wider
      (keptBlock settings node.tags (schema.objectBlock settings (key, node)))
      (keptBlock (settings.withExclusion wider) node.tags
        (schema.objectBlock (settings.withExclusion wider) (key, node))) := by
  cases node with
  | object object =>
    have hsource (method : Method) (hmethod : method ∈ object.methods) (prototype : Prototype)
        (hkey : prototype.key = key)
        (hstem : prototype.stem = Text.pascalCase key ++ Text.pascalCase method.name) :
        schema.source? prototype = some ⟨object.tags ++ method.tags, method.arguments⟩ := by
      subst hkey
      exact source?_method hload hnode hmethod hstem
    refine Thins.keptBlock hwider ?_ ?_
    · intro hexcludes prototypes hprototypes prototype hmem
      obtain ⟨hkey, method, hmethod, handle, -, hprototype⟩ :=
        fromMethod_of_mem_objectPrototypes hprototypes hmem
      obtain ⟨result, parameters, -, -, heq⟩ := signaturePrototype_eq_ok_iff.mp hprototype
      have hstem : prototype.stem = Text.pascalCase key ++ Text.pascalCase method.name := by
        rw [heq, hkey]
      refine ⟨_, hsource method hmethod prototype hkey hstem, ?_⟩
      change wider.excludes (object.tags ++ method.tags) = true
      have hobject : wider.excludes object.tags = true := hexcludes
      rw [Exclusion.excludes_append, hobject, Bool.true_or]
    · intro hstays
      have hobject : wider.excludes object.tags = false := hstays
      simp only [objectBlock, objectPrototypes_eq_gather]
      refine Thins.bind_left fun handle _ ↦ Thins.gather fun method hmethod ↦ ?_
      exact thins_signature hwider
        (hsource method hmethod) (by rw [Exclusion.excludes_append, hobject, Bool.false_or])
  | _ => exact Thins.keptBlock hwider (by simp [objectBlock]) fun _ ↦ Thins.nil

theorem thins_prototypes (hload : ofDocument document typePrefix = .ok schema)
    (hwider : settings.exclusion.tags ⊆ wider.tags) :
    schema.ThinsPrototypes settings wider (schema.prototypes settings)
      (schema.prototypes (settings.withExclusion wider)) := by
  rw [prototypes_eq_gather, prototypes_eq_gather]
  refine Thins.append ?_ ?_
  · exact Thins.gather fun declared hdeclared ↦
      thins_functionBlock hwider (Table.get?_eq_some_iff.mpr hdeclared)
  · exact Thins.gather fun declared hdeclared ↦
      thins_objectBlock hload hwider (Table.get?_eq_some_iff.mpr hdeclared)

/-! ### The whole header -/

/-- The items of a section without those of excluded keys, in the same order, each as
what it becomes. -/
def ItemsFiltered (schema : Schema) (settings : Settings) (wider : Exclusion)
    (items rest : List Item) : Prop :=
  List.Forall₂ (schema.ItemBecomes settings wider)
    (items.filter fun item ↦ ¬ schema.Excludes (settings.withExclusion wider) item.key) rest

/-- A header without what a wider exclusion leaves out. -/
structure HeaderFiltered (schema : Schema) (settings : Settings) (wider : Exclusion)
    (header rest : Header) : Prop where
  constants : schema.ItemsFiltered settings wider header.constants rest.constants
  handles : schema.ItemsFiltered settings wider header.handles rest.handles
  forwards : schema.ItemsFiltered settings wider header.forwards rest.forwards
  enumerations : schema.ItemsFiltered settings wider header.enumerations rest.enumerations
  aliases : schema.ItemsFiltered settings wider header.aliases rest.aliases
  chainLinks : rest.chainLinks = header.chainLinks
  records : schema.ItemsFiltered settings wider header.records rest.records
  prototypes : List.Forall₂ (schema.PrototypeBecomes settings wider)
    (header.prototypes.filter fun prototype ↦
      ¬ schema.ExcludesPrototype (settings.withExclusion wider) prototype) rest.prototypes

/-- Excluding more tags is nothing but a filter. A schema that has a header still has
one, both texts have the lines of their headers in order, and each section has the
declarations of the first header without the excluded ones, in the same order. A declaration that stays loses at most some of its
parts; where none of them is newly excluded it is the same. -/
theorem exclusion_only_filters (hload : ofDocument document typePrefix = .ok schema)
    (hwider : settings.exclusion.tags ⊆ wider.tags) {text : String}
    (hok : (schema.headerText settings).result = .ok text) :
    ∃ header rest, (schema.header settings).result = .ok header ∧
      (schema.header (settings.withExclusion wider)).result = .ok rest ∧
      text = header.text settings ∧
      (schema.headerText (settings.withExclusion wider)).result =
        .ok (rest.text (settings.withExclusion wider)) ∧
      Interleaved ((header.lines settings).map (Line.text settings)) text ∧
      Interleaved ((rest.lines (settings.withExclusion wider)).map
        (Line.text (settings.withExclusion wider))) (rest.text (settings.withExclusion wider)) ∧
      schema.HeaderFiltered settings wider header rest := by
  obtain ⟨header, hheader, rfl⟩ := headerText_eq_ok_iff.mp hok
  obtain ⟨hprototypes, hconstants, haliases, hchainLinks, hrecords, hhandles, hforwards, henums⟩ :=
    header_eq_ok_iff.mp hheader
  obtain ⟨prototypes, hprototypes', hprototypesFiltered⟩ :=
    thins_prototypes hload hwider _ hprototypes
  obtain ⟨constants, hconstants', hconstantsFiltered⟩ := thins_constants hwider _ hconstants
  obtain ⟨aliases, haliases', haliasesFiltered⟩ := thins_aliases hwider _ haliases
  obtain ⟨records, hrecords', hrecordsFiltered⟩ := thins_records hwider _ hrecords
  let rest : Header := {
    constants
    handles := schema.handles (settings.withExclusion wider)
    forwards := schema.forwards (settings.withExclusion wider)
    enumerations := schema.enumerations (settings.withExclusion wider)
    aliases
    chainLinks := header.chainLinks
    records
    prototypes }
  have hrest : (schema.header (settings.withExclusion wider)).result = .ok rest :=
    header_eq_ok_iff.mpr ⟨hprototypes', hconstants', haliases', hchainLinks, hrecords', rfl, rfl,
      rfl⟩
  refine ⟨header, rest, hheader, hrest, rfl, headerText_eq_ok_iff.mpr ⟨rest, hrest, rfl⟩,
    header.interleaved_lines settings, rest.interleaved_lines _, ?_⟩
  exact {
    constants := hconstantsFiltered
    handles := hhandles ▸ (thins_handles hwider).forall₂
    forwards := hforwards ▸ (thins_forwards hwider).forall₂
    enumerations := henums ▸ (thins_enumerations hwider).forall₂
    aliases := haliasesFiltered
    chainLinks := rfl
    records := hrecordsFiltered
    prototypes := hprototypesFiltered }

/-- An object with a tagged method, and a bitmask and a record with a tagged part. -/
def tagged : Schema where
  document := ⟨[("usage", .bitmask ⟨[⟨"copy", none, ["internal"]⟩, ⟨"map", none, []⟩], []⟩),
    ("limits", .record ⟨[⟨"size", "uint32_t", none, []⟩, ⟨"trace", "bool", none, ["internal"]⟩],
      none, none, []⟩),
    ("device", .object ⟨[⟨"trace", none, [], ["internal"]⟩,
      ⟨"run", none, [⟨"limits", "limits", some .pointer, []⟩], []⟩], []⟩)], by decide⟩
  catalogue := ⟨[("usage", ⟨"WGPUUsage", .bitmask⟩), ("limits", ⟨"WGPULimits", .record⟩),
    ("device", ⟨"WGPUDevice", .object⟩)], by decide⟩

/-- The method goes, and the value that stays keeps its number. -/
theorem tagged_filtered :
    ∃ header rest, (tagged.header .standard).result = .ok header ∧
      (tagged.header (Settings.standard.withExclusion ⟨["internal"], by decide⟩)).result =
        .ok rest ∧
      header.prototypes.map Prototype.stem = ["DeviceTrace", "DeviceRun"] ∧
      rest.prototypes.map Prototype.stem = ["DeviceRun"] ∧
      rest.enumerations = [⟨"usage", .enumeration "WGPUUsage" [⟨"WGPUUsage_Map", 1⟩]⟩,
        ⟨"usage", .flags "WGPUUsage"⟩] ∧
      tagged.HeaderFiltered .standard ⟨["internal"], by decide⟩ header rest := by
  have hload : ofDocument tagged.document "WGPU" = .ok tagged := rfl
  have hwider : Settings.standard.exclusion.tags ⊆
      (⟨["internal"], by decide⟩ : Exclusion).tags := List.nil_subset _
  have hwritten : (tagged.headerText .standard).result.isOk = true := by decide +kernel
  obtain ⟨text, hok⟩ := exists_ok_of_isOk hwritten
  obtain ⟨header, rest, hheader, hrest, -, -, -, -, hfiltered⟩ :=
    exclusion_only_filters hload hwider hok
  have hstems : (tagged.header .standard).result.map (·.prototypes.map Prototype.stem) =
      .ok ["DeviceTrace", "DeviceRun"] := by decide +kernel
  have hkept : (tagged.header
      (Settings.standard.withExclusion ⟨["internal"], by decide⟩)).result.map
        (fun rest ↦ (rest.prototypes.map Prototype.stem, rest.enumerations)) =
      .ok (["DeviceRun"], [⟨"usage", .enumeration "WGPUUsage" [⟨"WGPUUsage_Map", 1⟩]⟩,
        ⟨"usage", .flags "WGPUUsage"⟩]) := by decide +kernel
  rw [hheader] at hstems
  rw [hrest] at hkept
  obtain ⟨hrun, hvalues⟩ := Prod.mk.inj (Except.ok.inj hkept)
  exact ⟨header, rest, hheader, hrest, Except.ok.inj hstems, hrun, hvalues, hfiltered⟩

end ApiHeader.Schema
