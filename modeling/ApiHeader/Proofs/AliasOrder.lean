import ApiHeader.Proofs.Section

/-!
# The order of aliases

Aliases name other aliases: as the type they stand for, as what a function gives
back, or as the type of an argument, also of one that is left out (`Schema.Names`).
The section of aliases has each after those it names; there is none when an alias
names itself along a chain, and only then is a cycle told (`aliases_after_named`).
-/

set_option autoImplicit false
set_option relaxedAutoImplicit false

namespace ApiHeader

/-- The signature of a type of pointers to functions. -/
def Node.pointer? : Node → Option Signature
  | .functionPointer signature | .callback signature => some signature
  | _ => none

namespace Schema

variable {document : Document} {typePrefix : String} {schema : Schema} {settings : Settings}
  {items : List Item}

/-- One alias of the catalogue names another. -/
inductive Names (schema : Schema) (key : Key) : Key → Prop where
  | target {typedef : Typedef} (hdeclares : schema.Declares key (.typedef typedef))
      (halias : schema.isAliasKey typedef.target = true) : Names schema key typedef.target
  | result {node : Node} {signature : Signature} {type : Key} (hdeclares : schema.Declares key node)
      (hpointer : node.pointer? = some signature) (hreturns : signature.returns = some type)
      (halias : schema.isAliasKey type = true) : Names schema key type
  | argument {node : Node} {signature : Signature} {member : Member}
      (hdeclares : schema.Declares key node) (hpointer : node.pointer? = some signature)
      (hmember : member ∈ signature.arguments) (halias : schema.isAliasKey member.type = true) :
      Names schema key member.type

theorem mem_aliasMentions_iff {node : Node} {type : String} : type ∈ aliasMentions node ↔
    (∃ typedef, node = .typedef typedef ∧ typedef.target = type) ∨
      ∃ signature, node.pointer? = some signature ∧
        (signature.returns = some type ∨ ∃ member ∈ signature.arguments, member.type = type) := by
  cases node <;> simp [aliasMentions, Node.pointer?, eq_comm]

theorem names_iff {key target : Key} : schema.Names key target ↔
    ∃ node, schema.Declares key node ∧ target ∈ aliasMentions node ∧
      schema.isAliasKey target = true := by
  simp only [mem_aliasMentions_iff]
  constructor
  · rintro (⟨hdeclares, halias⟩ | ⟨hdeclares, hpointer, hreturns, halias⟩ |
      ⟨hdeclares, hpointer, hmember, halias⟩)
    · exact ⟨_, hdeclares, .inl ⟨_, rfl, rfl⟩, halias⟩
    · exact ⟨_, hdeclares, .inr ⟨_, hpointer, .inl hreturns⟩, halias⟩
    · exact ⟨_, hdeclares, .inr ⟨_, hpointer, .inr ⟨_, hmember, rfl⟩⟩, halias⟩
  · rintro ⟨node, hdeclares, hmentions, halias⟩
    rcases hmentions with ⟨typedef, rfl, rfl⟩ | ⟨signature, hpointer, hreturns | hmember⟩
    · exact .target hdeclares halias
    · exact .result hdeclares hpointer hreturns halias
    · obtain ⟨member, hmember, rfl⟩ := hmember
      exact .argument hdeclares hpointer hmember halias

theorem mem_aliasKeys_iff {key : Key} : key ∈ schema.aliasKeys ↔ schema.isAliasKey key = true := by
  simp only [aliasKeys, isAliasKey, List.mem_map, List.mem_filter, Option.any_eq_true, Prod.exists,
    Table.get?_eq_some_iff, exists_and_right, exists_eq_right]

theorem isAlias_of_mem_aliasMentions {node : Node} {type : String}
    (h : type ∈ aliasMentions node) : node.category.isAlias = true := by
  cases node <;> first | rfl | cases h

/-- The walk over the aliases goes from an alias to those that it names. -/
theorem need_aliases_eq (hload : ofDocument document typePrefix = .ok schema) :
    Walk.Need schema.aliasKeys schema.aliasNeeds = schema.Names := by
  funext key target
  refine propext ⟨?_, fun hnames ↦ ?_⟩
  · rintro ⟨hkey, hneeds⟩
    obtain ⟨node, hdeclares, -⟩ := (any_category_iff hload _).mp (mem_aliasKeys_iff.mp hkey)
    obtain ⟨hmentions, halias⟩ := List.mem_filter.mp hneeds
    rw [hdeclares.2, Option.map_some, Option.getD_some] at hmentions
    exact names_iff.mpr ⟨node, hdeclares, hmentions, halias⟩
  · obtain ⟨node, hdeclares, hmentions, halias⟩ := names_iff.mp hnames
    refine ⟨mem_aliasKeys_iff.mpr ((any_category_iff hload _).mpr
      ⟨node, hdeclares, isAlias_of_mem_aliasMentions hmentions⟩), List.mem_filter.mpr ⟨?_, halias⟩⟩
    rw [hdeclares.2]
    exact hmentions

/-! ### The lines of the section -/

/-- The places in the declaration of an alias that use type names. -/
inductive LineRefers (settings : Settings) (type : DeclaredType) : String → String → Prop where
  | target {typedef : Typedef} (hnode : type.node = .typedef typedef) :
      LineRefers settings type typedef.target type.key
  | signature {signature : Signature} {name context : String}
      (hpointer : type.node.pointer? = some signature)
      (hrefers : SignatureRefers settings signature.returns signature.arguments type.key name
        context) : LineRefers settings type name context

/-- The line of an alias that is kept: a name for a type, or for pointers to functions. -/
def IsAliasLine (schema : Schema) (settings : Settings) (item : Item) : Prop :=
  ∃ type, schema.type? item.key = some type ∧ settings.keeps type.node.tags = true ∧
    ((∃ typedef target, type.node = .typedef typedef ∧
        schema.typeRef typedef.target typedef.indirection item.key = .ok target ∧
        item.declaration = .typedef type.name target) ∨
      ∃ signature returns parameters, type.node.pointer? = some signature ∧
        schema.returnType signature.returns item.key = .ok returns ∧
        schema.declarators item.key (settings.keptMembers signature.arguments) = .ok parameters ∧
        item.declaration = .functionPointer type.name returns parameters)

/-- A node names a type, or pointers to functions, or is no alias. -/
theorem alias_cases (node : Node) : (∃ typedef, node = .typedef typedef) ∨
    (∃ signature, node.pointer? = some signature) ∨ node.category.isAlias = false := by
  cases node with
  | typedef typedef => exact .inl ⟨typedef, rfl⟩
  | functionPointer signature => exact .inr (.inl ⟨signature, rfl⟩)
  | callback signature => exact .inr (.inl ⟨signature, rfl⟩)
  | _ => exact .inr (.inr rfl)

theorem isAlias_of_pointer? {node : Node} {signature : Signature}
    (hpointer : node.pointer? = some signature) : node.category.isAlias = true := by
  cases node <;> first | rfl | cases hpointer

section Declaration

variable {type : DeclaredType} {typedef : Typedef} {signature : Signature} {name context : String}

theorem aliasDeclaration_typedef (hnode : type.node = .typedef typedef) :
    schema.aliasDeclaration settings type = (do
      let target ← schema.typeRef typedef.target typedef.indirection type.key
      return some (.typedef type.name target)) := by
  rw [aliasDeclaration, hnode]

theorem aliasDeclaration_pointer (hpointer : type.node.pointer? = some signature) :
    schema.aliasDeclaration settings type = (do
      let returns ← schema.returnType signature.returns type.key
      let parameters ← schema.declarators type.key (settings.keptMembers signature.arguments)
      return some (.functionPointer type.name returns parameters)) := by
  rw [aliasDeclaration]
  cases hnode : type.node with
  | functionPointer other =>
    rw [hnode] at hpointer
    obtain rfl : other = signature := Option.some.inj hpointer
    rfl
  | callback other =>
    rw [hnode] at hpointer
    obtain rfl : other = signature := Option.some.inj hpointer
    rfl
  | _ =>
    rw [hnode] at hpointer
    cases hpointer

theorem aliasDeclaration_other (hother : type.node.category.isAlias = false) :
    schema.aliasDeclaration settings type = .ok none := by
  rw [aliasDeclaration]
  cases hnode : type.node <;> first | rfl | (rw [hnode] at hother; cases hother)

theorem lineRefers_typedef_iff (hnode : type.node = .typedef typedef) :
    LineRefers settings type name context ↔ name = typedef.target ∧ context = type.key := by
  constructor
  · rintro (hother | ⟨hpointer, -⟩)
    · rw [hnode] at hother
      obtain rfl := Node.typedef.inj hother
      exact ⟨rfl, rfl⟩
    · rw [hnode] at hpointer
      cases hpointer
  · rintro ⟨rfl, rfl⟩
    exact .target hnode

theorem lineRefers_pointer_iff (hpointer : type.node.pointer? = some signature) :
    LineRefers settings type name context ↔
      SignatureRefers settings signature.returns signature.arguments type.key name context := by
  constructor
  · rintro (hnode | ⟨hother, hrefers⟩)
    · rw [hnode] at hpointer
      cases hpointer
    · rw [hpointer] at hother
      obtain rfl := Option.some.inj hother
      exact hrefers
  · exact .signature hpointer

theorem not_lineRefers (hother : type.node.category.isAlias = false) :
    ¬ LineRefers settings type name context := by
  rintro (hnode | ⟨hpointer, -⟩)
  · rw [hnode] at hother
    cases hother
  · rw [isAlias_of_pointer? hpointer] at hother
    cases hother

end Declaration

/-- An alias is refused exactly when one of the type names in it has no meaning. -/
theorem checks_aliasDeclaration (schema : Schema) (settings : Settings) (type : DeclaredType) :
    Checks (schema.aliasDeclaration settings type) (schema.Misses (LineRefers settings type)) := by
  rcases alias_cases type.node with ⟨typedef, hnode⟩ | ⟨signature, hpointer⟩ | hother
  · rw [aliasDeclaration_typedef hnode]
    refine (schema.checks_typeRef _ _ type.key).map.congr fun e ↦ ?_
    simp [Misses, lineRefers_typedef_iff hnode]
  · rw [aliasDeclaration_pointer hpointer]
    refine (schema.checks_signature settings _ _ type.key _).congr fun e ↦ ?_
    simp only [Misses, lineRefers_pointer_iff hpointer]
  · rw [aliasDeclaration_other hother]
    refine (Checks.ok none).congr fun e ↦ ?_
    simp [Misses, not_lineRefers hother]

theorem aliasDeclaration_ne_none {type : DeclaredType}
    (halias : type.node.category.isAlias = true) :
    schema.aliasDeclaration settings type ≠ .ok none := by
  intro h
  rcases alias_cases type.node with ⟨typedef, hnode⟩ | ⟨signature, hpointer⟩ | hother
  · rw [aliasDeclaration_typedef hnode] at h
    obtain ⟨_, -, h⟩ := bind_eq_ok_iff.mp h
    cases h
  · rw [aliasDeclaration_pointer hpointer] at h
    obtain ⟨_, -, h⟩ := bind_eq_ok_iff.mp h
    obtain ⟨_, -, h⟩ := bind_eq_ok_iff.mp h
    cases h
  · rw [hother] at halias
    cases halias

theorem isAliasLine_of_mem_aliases (hok : (schema.aliases settings).result = .ok items)
    {item : Item} (hitem : item ∈ items) : schema.IsAliasLine settings item := by
  obtain ⟨key, -, hdeclared⟩ := (Walk.mem_declare_iff hok).mp hitem
  rw [aliasItem_eq] at hdeclared
  obtain ⟨type, htype, hkeeps, hdeclaration, rfl⟩ := declaredItem_eq_some_iff.mp hdeclared
  refine ⟨type, htype, hkeeps, ?_⟩
  rw [← (declares_of_type? htype).1]
  rcases alias_cases type.node with ⟨typedef, hnode⟩ | ⟨signature, hpointer⟩ | hother
  · rw [aliasDeclaration_typedef hnode] at hdeclaration
    obtain ⟨target, htarget, h⟩ := bind_eq_ok_iff.mp hdeclaration
    exact .inl ⟨typedef, target, hnode, htarget, (Option.some.inj (Except.ok.inj h)).symm⟩
  · rw [aliasDeclaration_pointer hpointer] at hdeclaration
    obtain ⟨returns, hreturns, h⟩ := bind_eq_ok_iff.mp hdeclaration
    obtain ⟨parameters, hparameters, h⟩ := bind_eq_ok_iff.mp h
    exact .inr ⟨signature, returns, parameters, hpointer, hreturns, hparameters,
      (Option.some.inj (Except.ok.inj h)).symm⟩
  · rw [aliasDeclaration_other hother] at hdeclaration
    cases hdeclaration

theorem nodup_keys_aliases (hok : (schema.aliases settings).result = .ok items) :
    (items.map Item.key).Nodup :=
  Walk.nodup_keys_declare key_declaredItem hok

/-- The places in aliases whose types a header has to write. -/
inductive AliasRefers (schema : Schema) (settings : Settings) : String → String → Prop where
  | target {key : Key} {typedef : Typedef} (hdeclares : schema.Declares key (.typedef typedef))
      (hkeeps : settings.keeps typedef.tags = true) :
      AliasRefers schema settings typedef.target key
  | signature {key : Key} {node : Node} {signature : Signature} {name context : String}
      (hdeclares : schema.Declares key node) (hpointer : node.pointer? = some signature)
      (hkeeps : settings.keeps node.tags = true)
      (hrefers : SignatureRefers settings signature.returns signature.arguments key name context) :
      AliasRefers schema settings name context

theorem aliasRefers_iff (hload : ofDocument document typePrefix = .ok schema)
    {name context : String} : schema.AliasRefers settings name context ↔
      ∃ key ∈ schema.aliasKeys, ∃ type, schema.type? key = some type ∧
        settings.keeps type.node.tags = true ∧ LineRefers settings type name context := by
  constructor
  · intro hrefers
    cases hrefers with
    | target hdeclares hkeeps =>
      obtain ⟨_, htype⟩ := hdeclares.type?
      have hkey := mem_aliasKeys_iff.mpr ((any_category_iff hload _).mpr ⟨_, hdeclares, rfl⟩)
      exact ⟨_, hkey, _, htype, hkeeps, .target rfl⟩
    | signature hdeclares hpointer hkeeps hrefers =>
      obtain ⟨_, htype⟩ := hdeclares.type?
      have hkey := mem_aliasKeys_iff.mpr
        ((any_category_iff hload _).mpr ⟨_, hdeclares, isAlias_of_pointer? hpointer⟩)
      exact ⟨_, hkey, _, htype, hkeeps, .signature hpointer hrefers⟩
  · rintro ⟨key, -, type, htype, hkeeps, hrefers⟩
    obtain ⟨rfl, hdeclares⟩ := declares_of_type? htype
    cases hrefers with
    | target hnode =>
      rw [hnode] at hdeclares hkeeps
      exact .target hdeclares hkeeps
    | signature hpointer hrefers => exact .signature hdeclares hpointer hkeeps hrefers

/-- The section of aliases is refused exactly when a type name in one of them has no
meaning or aliases name one another in a cycle. -/
theorem checks_aliases (hload : ofDocument document typePrefix = .ok schema)
    (settings : Settings) :
    Checks (schema.aliases settings).result
      (schema.SectionFault (schema.AliasRefers settings) schema.Names) := by
  rw [aliases, aliasWalk, aliasItem_eq]
  refine (Walk.checks_declare fun key _ ↦
    checks_declaredItem (schema.checks_aliasDeclaration settings)).congr fun e ↦ ?_
  rw [need_aliases_eq hload]
  refine or_congr_left ⟨?_, ?_⟩
  · rintro ⟨key, hkey, type, htype, hkeeps, name, context, hrefers, hfault⟩
    exact ⟨name, context, (aliasRefers_iff hload).mpr ⟨key, hkey, type, htype, hkeeps, hrefers⟩,
      hfault⟩
  · rintro ⟨name, context, hrefers, hfault⟩
    obtain ⟨key, hkey, type, htype, hkeeps, hrefers⟩ := (aliasRefers_iff hload).mp hrefers
    exact ⟨key, hkey, type, htype, hkeeps, name, context, hrefers, hfault⟩

/-- What an alias names along a chain is excluded or has its line before it. -/
theorem before_of_names (hload : ofDocument document typePrefix = .ok schema)
    (hok : (schema.aliases settings).result = .ok items) {item : Item} (hitem : item ∈ items)
    {target : Key} (hlead : Relation.TransGen schema.Names item.key target) :
    target ≠ item.key ∧ (schema.Excludes settings target ∨ Before items target item.key) := by
  have hnodes (key : Key) (hkey : key ∈ schema.aliasKeys) : ∃ type,
      schema.type? key = some type ∧ schema.aliasDeclaration settings type ≠ .ok none := by
    obtain ⟨node, hdeclares, halias⟩ := (any_category_iff hload _).mp (mem_aliasKeys_iff.mp hkey)
    obtain ⟨name, htype⟩ := hdeclares.type?
    exact ⟨_, htype, aliasDeclaration_ne_none halias⟩
  obtain ⟨_, -, hlast⟩ := Relation.TransGen.tail'_iff.mp hlead
  obtain ⟨_, -, -, halias⟩ := names_iff.mp hlast
  rw [← need_aliases_eq hload] at hlead
  exact before_or_excludes hnodes hok hitem (mem_aliasKeys_iff.mpr halias) hlead

/-- The text of the section is one line after the other, at most one for each key. What
an alias names is excluded or has its line before it, and no alias names itself along
a chain. Only aliases that do are refused for a cycle; the path that is told is a
simple cycle of names that ends where it begins, and its keys are joined by arrows. -/
theorem aliases_after_named (hload : ofDocument document typePrefix = .ok schema)
    (settings : Settings) :
    (∀ items, (schema.aliases settings).result = .ok items →
      itemText settings.typePrefix items =
        String.join (items.map fun item ↦ item.declaration.text settings.typePrefix) ∧
      (∀ item ∈ items, schema.IsAliasLine settings item) ∧
      (items.map Item.key).Nodup ∧
      (∀ item ∈ items, ∀ target, schema.Names item.key target → target ≠ item.key ∧
        (schema.Excludes settings target ∨ Before items target item.key)) ∧
      Acyclic schema.Names) ∧
    (Acyclic schema.Names → ∀ path, (schema.aliases settings).result ≠ .error (.cyclic path)) ∧
    (∀ path, (schema.aliases settings).result = .error (.cyclic path) →
      SimpleCycle schema.Names path ∧ (HeaderError.cyclic path).message =
        "cyclic by-value dependency: " ++ " -> ".intercalate path) := by
  have hchecks := checks_aliases hload settings
  refine ⟨fun items hok ↦ ⟨itemText_eq_join _ items, fun item ↦ isAliasLine_of_mem_aliases hok,
    nodup_keys_aliases hok, ?_, ?_⟩, ?_, ?_⟩
  · intro item hitem target hnames
    exact before_of_names hload hok hitem (.single hnames)
  · have hacyclic := Walk.acyclic_of_declare hok
    rwa [need_aliases_eq hload] at hacyclic
  · intro hacyclic path herror
    exact (simpleCycle_of_checks hchecks herror).not_acyclic hacyclic
  · exact fun path herror ↦ ⟨simpleCycle_of_checks hchecks herror, rfl⟩

/-- A type of pointers to functions that names another in an argument with a tag. -/
def calling : Schema where
  document := ⟨[("request", .functionPointer ⟨none, [⟨"then", "done", none, ["internal"]⟩], []⟩),
    ("done", .callback ⟨none, [], []⟩)], by decide⟩
  catalogue := ⟨[("request", ⟨"WGPURequest", .functionPointer⟩), ("done", ⟨"WGPUDone", .callback⟩)],
    by decide⟩

/-- An argument that is left out still has its alias first. -/
theorem calling_done_before_request :
    ∃ items, (calling.aliases
      (Settings.standard.withExclusion ⟨["internal"], by decide⟩)).result = .ok items ∧
        Before items "done" "request" := by
  have hload : ofDocument calling.document "WGPU" = .ok calling := rfl
  have hok : (calling.aliases
      (Settings.standard.withExclusion ⟨["internal"], by decide⟩)).result =
        .ok [⟨"done", .functionPointer "WGPUDone" ⟨.primitive .void, none⟩ []⟩,
          ⟨"request", .functionPointer "WGPURequest" ⟨.primitive .void, none⟩ []⟩] := by
    decide +kernel
  have hnames : calling.Names "request" "done" :=
    names_iff.mpr ⟨_, ⟨rfl, rfl⟩, List.mem_cons_self, rfl⟩
  obtain ⟨hordered, -, -⟩ := aliases_after_named hload
    (Settings.standard.withExclusion ⟨["internal"], by decide⟩)
  obtain ⟨-, -, -, hafter, -⟩ := hordered _ hok
  refine ⟨_, hok, ?_⟩
  rcases hafter ⟨"request", _⟩ (List.mem_cons_of_mem _ List.mem_cons_self) "done" hnames
    with ⟨-, ⟨node, hnode, hexcludes⟩ | hbefore⟩
  · obtain rfl := Option.some.inj hnode
    cases hexcludes
  · exact hbefore

end Schema

end ApiHeader
