import ApiHeader.Proofs.Links
import ApiHeader.Proofs.Section

/-!
# The order of records

The section of records has one body for each record that is kept, and no body uses by
value what comes after it: whatever a record contains, also through records that are
left out, is excluded or stands before it (`records_after_contents`). Records that
hold one another in a cycle have no section, and a cycle that is told is one of the
links (`record_cycles_told`).
-/

set_option autoImplicit false
set_option relaxedAutoImplicit false

namespace ApiHeader.Schema

variable {document : Document} {typePrefix : String} {schema : Schema} {settings : Settings}
  {items : List Item}

/-- The body of a record that is kept: the member for its chain, and its own members
that are kept. -/
def IsBody (schema : Schema) (settings : Settings) (item : Item) : Prop :=
  ∃ type record members, schema.type? item.key = some type ∧
    type.node.record? = some record ∧ settings.keeps type.node.tags = true ∧
    schema.declarators item.key (settings.keptMembers record.members) = .ok members ∧
    item.declaration = .record type.name (chainMember record ++ members)

theorem recordDeclaration_eq_some_iff {type : DeclaredType} {declaration : Declaration} :
    schema.recordDeclaration settings type = .ok (some declaration) ↔
      ∃ record members, type.node.record? = some record ∧
        schema.declarators type.key (settings.keptMembers record.members) = .ok members ∧
        declaration = .record type.name (chainMember record ++ members) := by
  rw [recordDeclaration]
  cases hrecord : type.node.record? with
  | none => simp [pure, Except.pure]
  | some record =>
    simp only [Option.some.injEq, exists_and_left, exists_eq_left']
    constructor
    · intro h
      obtain ⟨members, hmembers, h⟩ := bind_eq_ok_iff.mp h
      exact ⟨members, hmembers, (Option.some.inj (Except.ok.inj h)).symm⟩
    · rintro ⟨members, hmembers, rfl⟩
      exact bind_eq_ok_iff.mpr ⟨members, hmembers, rfl⟩

theorem recordDeclaration_ne_none {type : DeclaredType} {record : Record}
    (hrecord : type.node.record? = some record) :
    schema.recordDeclaration settings type ≠ .ok none := by
  intro h
  rw [recordDeclaration, hrecord] at h
  obtain ⟨members, -, h⟩ := bind_eq_ok_iff.mp h
  cases h

/-- A body is refused exactly when the type of one of its members has no meaning. -/
theorem checks_recordDeclaration (schema : Schema) (settings : Settings) (type : DeclaredType) :
    Checks (schema.recordDeclaration settings type) fun e ↦
      ∃ record member, type.node.record? = some record ∧
        member ∈ settings.keptMembers record.members ∧
        schema.Unresolved member.type (type.key ++ "." ++ member.name) e := by
  rw [recordDeclaration]
  cases hrecord : type.node.record? with
  | none => exact (Checks.ok _).congr fun e ↦ by simp
  | some record =>
    exact (schema.checks_declarators type.key _).map.congr fun e ↦ by simp

/-- Only records of the catalogue hold others. -/
theorem need_links_iff {key target : Key} :
    Walk.Need schema.links.keys (heldBy schema.links) key target ↔ schema.Holds key target := by
  constructor
  · exact And.right
  · intro h
    obtain ⟨held, hheld, -⟩ := mem_heldBy_iff.mp h
    exact ⟨Table.mem_keys_iff.mpr ⟨held, hheld⟩, h⟩

theorem need_links_eq (schema : Schema) :
    Walk.Need schema.links.keys (heldBy schema.links) = schema.Holds := by
  funext key target
  exact propext need_links_iff

/-- The members of records whose types a header has to write. -/
inductive MemberRefers (schema : Schema) (settings : Settings) : String → String → Prop where
  | member {key : Key} {node : Node} {record : Record} {member : Member}
      (hdeclares : schema.Declares key node) (hrecord : node.record? = some record)
      (hkeeps : settings.keeps node.tags = true)
      (hmember : member ∈ settings.keptMembers record.members) :
      MemberRefers schema settings member.type (key ++ "." ++ member.name)

/-- The section of records is refused exactly when the type of a member has no meaning
or records hold one another in a cycle. -/
theorem checks_records (hload : ofDocument document typePrefix = .ok schema)
    (settings : Settings) :
    Checks (schema.records settings).result
      (schema.SectionFault (schema.MemberRefers settings) schema.Holds) := by
  rw [records, recordWalk, recordItem_eq]
  refine (Walk.checks_declare fun key _ ↦
    checks_declaredItem (schema.checks_recordDeclaration settings)).congr fun e ↦ ?_
  rw [need_links_eq]
  refine or_congr_left ⟨?_, ?_⟩
  · rintro ⟨key, -, type, htype, hkeeps, record, member, hrecord, hmember, hfault⟩
    obtain ⟨rfl, hdeclares⟩ := declares_of_type? htype
    exact ⟨_, _, .member hdeclares hrecord hkeeps hmember, hfault⟩
  · rintro ⟨_, _, ⟨hdeclares, hrecord, hkeeps, hmember⟩, hfault⟩
    obtain ⟨name, htype⟩ := hdeclares.type?
    have hkey := (mem_keys_links_iff hload).mpr ⟨_, _, hdeclares, hrecord⟩
    exact ⟨_, hkey, _, htype, hkeeps, _, _, hrecord, hmember, hfault⟩

theorem exists_type?_of_mem_keys_links (hload : ofDocument document typePrefix = .ok schema)
    {key : Key} (hkey : key ∈ schema.links.keys) : ∃ type,
      schema.type? key = some type ∧ schema.recordDeclaration settings type ≠ .ok none := by
  obtain ⟨record, node, hdeclares, hrecord⟩ := (mem_keys_links_iff hload).mp hkey
  obtain ⟨name, htype⟩ := hdeclares.type?
  exact ⟨_, htype, recordDeclaration_ne_none hrecord⟩

/-- What a body leads to along the links is excluded or has its body before it. -/
theorem before_of_holds (hload : ofDocument document typePrefix = .ok schema)
    (hok : (schema.records settings).result = .ok items) {item : Item} (hitem : item ∈ items)
    {target : Key} (hlead : Relation.TransGen schema.Holds item.key target) :
    target ≠ item.key ∧ (schema.Excludes settings target ∨ Before items target item.key) := by
  obtain ⟨_, -, hlast⟩ := Relation.TransGen.tail'_iff.mp hlead
  have htarget : target ∈ schema.links.keys :=
    (mem_keys_links_iff hload).mpr (hlast.hasRecord hload).2
  rw [← need_links_eq] at hlead
  exact before_or_excludes (fun _ ↦ exists_type?_of_mem_keys_links hload) hok hitem htarget hlead

theorem isBody_of_mem_records (hok : (schema.records settings).result = .ok items) {item : Item}
    (hitem : item ∈ items) : schema.IsBody settings item := by
  obtain ⟨key, -, hdeclared⟩ := (Walk.mem_declare_iff hok).mp hitem
  rw [recordItem_eq] at hdeclared
  obtain ⟨type, htype, hkeeps, hdeclaration, rfl⟩ := declaredItem_eq_some_iff.mp hdeclared
  obtain ⟨record, members, hrecord, hmembers, hbody⟩ :=
    recordDeclaration_eq_some_iff.mp hdeclaration
  rw [(declares_of_type? htype).1] at hmembers
  exact ⟨type, record, members, htype, hrecord, hkeeps, hmembers, hbody⟩

theorem nodup_keys_records (hok : (schema.records settings).result = .ok items) :
    (items.map Item.key).Nodup :=
  Walk.nodup_keys_declare key_declaredItem hok

/-- The text of the section is one body after the other, at most one for each key. What
the members of a body contain by value is excluded or has its body before it, and so
has what it contains through other records, also through those left out. -/
theorem records_after_contents (hload : ofDocument document typePrefix = .ok schema)
    (hok : (schema.records settings).result = .ok items) :
    itemText settings.typePrefix items =
      String.join (items.map fun item ↦ item.declaration.text settings.typePrefix) ∧
    (∀ item ∈ items, schema.IsBody settings item) ∧
    (items.map Item.key).Nodup ∧
    (∀ item ∈ items, ∀ record, schema.HasRecord item.key record →
      ∀ target, schema.ContainedIn (settings.keptMembers record.members) target →
        target ≠ item.key ∧
          (schema.Excludes settings target ∨ Before items target item.key)) ∧
    (∀ item ∈ items, ∀ target, Relation.TransGen schema.Contains item.key target →
        target ≠ item.key ∧
          (schema.Excludes settings target ∨ Before items target item.key)) := by
  have hall (item : Item) (hitem : item ∈ items) (target : Key)
      (hlead : Relation.TransGen schema.Contains item.key target) : target ≠ item.key ∧
        (schema.Excludes settings target ∨ Before items target item.key) :=
    before_of_holds hload hok hitem
      (Relation.TransGen.mono (fun _ _ ↦ holds_of_contains hload) _ _ hlead)
  refine ⟨itemText_eq_join _ items, fun item ↦ isBody_of_mem_records hok,
    nodup_keys_records hok, ?_, hall⟩
  intro item hitem record hhas target ⟨htarget, member, hmember, hcontained⟩
  refine hall item hitem target (.single ⟨record, hhas, htarget, member, ?_, hcontained⟩)
  exact (List.mem_filter.mp hmember).1

/-- A record that leads to another through an alias and a record with a tag. -/
def nested : Schema where
  document := ⟨[("outer", .record ⟨[⟨"child", "alias", none, []⟩], none, none, []⟩),
    ("alias", .typedef { target := "middle", indirection := none, tags := [] }),
    ("middle", .record ⟨[⟨"child", "leaf", none, []⟩], none, none, ["internal"]⟩),
    ("leaf", .record ⟨[⟨"size", "uint32_t", none, []⟩], none, none, []⟩)], by decide⟩
  catalogue := ⟨[("outer", ⟨"WGPUOuter", .record⟩), ("alias", ⟨"WGPUAlias", .typedef⟩),
    ("middle", ⟨"WGPUMiddle", .record⟩), ("leaf", ⟨"WGPULeaf", .record⟩)], by decide⟩

/-- The record between the two is left out, and they are still in order. -/
theorem nested_leaf_before_outer :
    ∃ items, (nested.records (Settings.standard.withExclusion ⟨["internal"], by decide⟩)).result =
      .ok items ∧ Before items "leaf" "outer" := by
  have hload : ofDocument nested.document "WGPU" = .ok nested := rfl
  have hok : (nested.records (Settings.standard.withExclusion ⟨["internal"], by decide⟩)).result =
      .ok [⟨"leaf", .record "WGPULeaf" [⟨⟨.primitive .uint32, none⟩, "size"⟩]⟩,
        ⟨"outer", .record "WGPUOuter" [⟨⟨.declared "WGPUAlias", none⟩, "child"⟩]⟩] := by
    decide +kernel
  have houter : nested.Contains "outer" "middle" :=
    ⟨_, ⟨_, ⟨rfl, rfl⟩, rfl⟩, ⟨_, _, ⟨rfl, rfl⟩, rfl⟩, _, List.mem_cons_self, rfl,
      .through ⟨rfl, rfl⟩ rfl (.self _)⟩
  have hmiddle : nested.Contains "middle" "leaf" :=
    ⟨_, ⟨_, ⟨rfl, rfl⟩, rfl⟩, ⟨_, _, ⟨rfl, rfl⟩, rfl⟩, _, List.mem_cons_self, rfl, .self _⟩
  obtain ⟨-, -, -, -, hall⟩ := records_after_contents hload hok
  refine ⟨_, hok, ?_⟩
  rcases hall ⟨"outer", _⟩ (List.mem_cons_of_mem _ List.mem_cons_self) "leaf"
    (.tail (.single houter) hmiddle) with ⟨-, ⟨node, hnode, hexcludes⟩ | hbefore⟩
  · obtain rfl := Option.some.inj hnode
    cases hexcludes
  · exact hbefore

/-- Records that hold one another in a cycle, wherever it lies, have no section, and
only these are refused for a cycle; the path that is told is a simple cycle of the
links that ends where it begins, and its keys are joined by arrows. -/
theorem record_cycles_told (hload : ofDocument document typePrefix = .ok schema)
    (settings : Settings) :
    (Acyclic schema.Holds → ∀ path, (schema.records settings).result ≠ .error (.cyclic path)) ∧
    (∀ key, Relation.TransGen schema.Holds key key →
      ∀ items, (schema.records settings).result ≠ .ok items) ∧
    (∀ path, (schema.records settings).result = .error (.cyclic path) →
      SimpleCycle schema.Holds path ∧ (HeaderError.cyclic path).message =
        "cyclic by-value dependency: " ++ " -> ".intercalate path) := by
  have hchecks := checks_records hload settings
  refine ⟨?_, ?_, fun path herror ↦ ⟨simpleCycle_of_checks hchecks herror, rfl⟩⟩
  · intro hacyclic path herror
    exact (simpleCycle_of_checks hchecks herror).not_acyclic hacyclic
  · intro key hlead items hok
    have hacyclic := Walk.acyclic_of_declare hok
    rw [need_links_eq] at hacyclic
    exact hacyclic key hlead

/-- Two records that hold one another. -/
def entangled : Schema where
  document := ⟨[("left", .record ⟨[⟨"other", "right", none, []⟩], none, none, []⟩),
    ("right", .record ⟨[⟨"other", "left", none, []⟩], none, none, []⟩)], by decide⟩
  catalogue := ⟨[("left", ⟨"WGPULeft", .record⟩), ("right", ⟨"WGPURight", .record⟩)], by decide⟩

theorem entangled_cycle_told :
    (entangled.records .standard).result = .error (.cyclic ["left", "right", "left"]) ∧
      SimpleCycle entangled.Holds ["left", "right", "left"] := by
  have hload : ofDocument entangled.document "WGPU" = .ok entangled := rfl
  have herror : (entangled.records .standard).result =
      .error (.cyclic ["left", "right", "left"]) := by
    decide +kernel
  obtain ⟨-, -, htold⟩ := record_cycles_told hload .standard
  exact ⟨herror, (htold _ herror).1⟩

end ApiHeader.Schema
