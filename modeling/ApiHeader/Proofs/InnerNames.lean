import ApiHeader.Proofs.Coverage
import ApiHeader.Proofs.Symbols
import ApiHeader.Proofs.Thinning

/-!
# Names inside a declaration

A record declares its members and an enumeration its values. Loading compares the names
of a description with each other, but a header adds names of its own: the member by which
a record starts a chain or is part of one, and the sentinel that ends an enumeration. So
the members of a record are distinct exactly if none that is kept is spelled as the member
for the chain (`fields_distinct_iff`), and the values of an enumeration exactly if none
that is kept is spelled as the sentinel (`enumerators_distinct_iff`).
-/

set_option autoImplicit false
set_option relaxedAutoImplicit false

namespace ApiHeader

/-- The names that are declared inside a declaration, in order. A sentinel comes after the
values of an enumeration. -/
def Declaration.innerNames : Declaration → List String
  | .record _ members => members.map Declarator.name
  | .enumeration name enumerators => enumerators.map Enumerator.name ++ [name ++ "_Force32"]
  | .functionPointer _ _ parameters => parameters.map Declarator.name
  | .chainLink .. => ["next", "sType"]
  | .constant .. | .handle _ | .forward _ | .flags _ | .typedef .. => []

/-- The name of the member that a record has for its chain. -/
def Record.chainName? (record : Record) : Option String :=
  match record.extensible, record.chained with
  | some _, _ => some "nextInChain"
  | none, some _ => some "chain"
  | none, none => none

def Node.enumeration? : Node → Option Enumeration
  | .enumeration e | .bitmask e => some e
  | _ => none

/-! ### Lines -/

/-- Between its first and its last line, a text has one line for each name. -/
def LinesBetween (first last : String) (line : String → String → Prop) (names : List String)
    (text : String) : Prop :=
  ∃ lines, text = first ++ String.join lines ++ last ∧ List.Forall₂ line names lines

/-- The line of a member tells its type and then its name. -/
def FieldLine (name line : String) : Prop :=
  ∃ type : String, line = "    " ++ type ++ " " ++ name ++ ";\n"

/-- The line of a value tells its name and then its number. -/
def EnumeratorLine (name line : String) : Prop :=
  ∃ number : String, line = "    " ++ name ++ " = 0x" ++ number ++ "\n"

theorem linesBetween_record (typePrefix name : String) (members : List Declarator) :
    LinesBetween ("struct " ++ name ++ " \x7b\n") "\x7d;\n\n" FieldLine
      (Declaration.record name members).innerNames
      ((Declaration.record name members).text typePrefix) := by
  refine ⟨_, Declaration.text_record typePrefix name members, ?_⟩
  rw [Declaration.innerNames, List.forall₂_map_left_iff, List.forall₂_map_right_iff,
    List.forall₂_same]
  intro member _
  refine ⟨member.type.text typePrefix, ?_⟩
  simp only [Declarator.text, String.append_assoc]

theorem linesBetween_enumeration (typePrefix name : String) (enumerators : List Enumerator) :
    LinesBetween ("typedef enum " ++ name ++ " \x7b\n") ("\x7d " ++ name ++ ";\n\n") EnumeratorLine
      (Declaration.enumeration name enumerators).innerNames
      ((Declaration.enumeration name enumerators).text typePrefix) := by
  have hends : "_Force32 = 0x7FFFFFFF\n\x7d " =
      "_Force32" ++ " = 0x" ++ "7FFFFFFF" ++ "\n" ++ "\x7d " := rfl
  refine ⟨enumerators.map Enumerator.text ++
    ["    " ++ (name ++ "_Force32") ++ " = 0x" ++ "7FFFFFFF" ++ "\n"], ?_, ?_⟩
  · rw [Declaration.text_enumeration, hends]
    simp only [String.join_append, String.join_cons, String.join_nil, String.append_assoc,
      String.append_empty]
  · refine List.rel_append ?_ (.cons ⟨"7FFFFFFF", rfl⟩ .nil)
    rw [List.forall₂_map_left_iff, List.forall₂_map_right_iff, List.forall₂_same]
    intro enumerator _
    refine ⟨.ofList (Text.hexUpper 8 enumerator.value.toNat) ++ ",", ?_⟩
    have hcomma : ",\n" = "," ++ "\n" := rfl
    simp only [Enumerator.text, hcomma, String.append_assoc]

/-! ### Names that come from a description -/

theorem Node.nodup_members {node : Node} (hdistinct : node.NamesDistinct) {record : Record}
    (hrecord : node.record? = some record) :
    (record.members.map fun m ↦ Text.camelCase m.name).Nodup := by
  cases node <;> cases hrecord <;> exact hdistinct

theorem Node.nodup_items {node : Node} (hdistinct : node.NamesDistinct) {e : Enumeration}
    (henumeration : node.enumeration? = some e) :
    (e.items.map fun i ↦ Text.valueCase i.name).Nodup := by
  cases node <;> cases henumeration <;> exact hdistinct

theorem map_name_chainMember (record : Record) :
    (Schema.chainMember record).map Declarator.name = record.chainName?.toList := by
  obtain ⟨members, extensible, chained, tags⟩ := record
  rcases extensible with _ | _ | _ <;> rcases chained with _ | _ <;> rfl

/-- One more name in front is distinct from the others unless it is one of them. -/
theorem nodup_toList_append_iff {names : List String} (hnodup : names.Nodup)
    (extra : Option String) :
    (extra.toList ++ names).Nodup ↔ ∀ name ∈ names, extra ≠ some name := by
  cases extra with
  | none => simpa using hnodup
  | some first =>
    rw [Option.toList_some, List.singleton_append, List.nodup_cons, and_iff_left hnodup]
    constructor
    · rintro hfirst name hname h
      exact hfirst (Option.some.inj h ▸ hname)
    · intro hall hfirst
      exact hall first hfirst rfl

namespace Schema

variable {document : Document} {typePrefix : String} {schema : Schema} {settings : Settings}
  {items : List Item} {item : Item}

theorem map_name_declarators {owner : String} {members : List Member}
    {declarators : List Declarator} (hok : schema.declarators owner members = .ok declarators) :
    declarators.map Declarator.name = members.map fun m ↦ Text.camelCase m.name := by
  refine map_eq_map_of_mapM (fun member declarator h ↦ ?_) hok
  obtain ⟨type, -, h⟩ := bind_eq_ok_iff.mp h
  exact Except.ok.inj h ▸ rfl

theorem map_name_enumerators (settings : Settings) (name : String) (items : List EnumItem) :
    (enumerators settings name items).map Enumerator.name =
      (items.filter fun i ↦ settings.keeps i.tags).map fun i ↦
        name ++ "_" ++ Text.valueCase i.name := by
  conv_rhs => rw [← map_fst_numberItems 0 items, List.filter_map, List.map_map]
  rw [enumerators, List.map_map]
  rfl

/-- The body of a record has a line for each of its names: that of the member for its
chain, if there is one, and those of its own members that are kept. They are distinct
exactly if no such member is spelled as the one for the chain. -/
theorem fields_distinct_iff (hload : ofDocument document typePrefix = .ok schema)
    (hok : (schema.records settings).result = .ok items) (hitem : item ∈ items) :
    ∃ type record, schema.type? item.key = some type ∧ type.node.record? = some record ∧
      LinesBetween ("struct " ++ type.name ++ " \x7b\n") "\x7d;\n\n" FieldLine
        item.declaration.innerNames (item.declaration.text settings.typePrefix) ∧
      item.declaration.innerNames = record.chainName?.toList ++
        (settings.keptMembers record.members).map (fun m ↦ Text.camelCase m.name) ∧
      (item.declaration.innerNames.Nodup ↔ ∀ member ∈ settings.keptMembers record.members,
        record.chainName? ≠ some (Text.camelCase member.name)) := by
  obtain ⟨type, record, members, htype, hrecord, -, hmembers, hbody⟩ :=
    isBody_of_mem_records hok hitem
  have hnames : item.declaration.innerNames = record.chainName?.toList ++
      (settings.keptMembers record.members).map fun m ↦ Text.camelCase m.name := by
    rw [hbody, Declaration.innerNames, List.map_append, map_name_chainMember,
      map_name_declarators hmembers]
  have hown : ((settings.keptMembers record.members).map fun m ↦ Text.camelCase m.name).Nodup :=
    (Node.nodup_members (namesDistinct hload (declares_of_type? htype).2.2) hrecord).sublist
      (List.filter_sublist.map _)
  refine ⟨type, record, htype, hrecord, ?_, hnames, ?_⟩
  · rw [hbody]
    exact linesBetween_record _ _ _
  · rw [hnames, nodup_toList_append_iff hown, List.forall_mem_map]

/-- A record that starts a chain, with a member that has a tag and is spelled as the one for
the chain. -/
def chaining : Schema where
  document := ⟨[("descriptor", .record ⟨[⟨"label", "string", none, []⟩,
    ⟨"chain", "uint32_t", none, []⟩, ⟨"next in chain", "uint32_t", none, ["internal"]⟩],
    some .inward, none, []⟩)], by decide⟩
  catalogue := ⟨[("descriptor", ⟨"WGPUDescriptor", .record⟩)], by decide⟩

/-- Without the member that has a tag, the names are distinct. -/
theorem chaining_fields_distinct :
    ∃ items, (chaining.records (Settings.standard.withExclusion ⟨["internal"], by decide⟩)).result =
      .ok items ∧ ∃ item ∈ items, item.key = "descriptor" ∧
        item.declaration.innerNames = ["nextInChain", "label", "chain"] ∧
        item.declaration.innerNames.Nodup := by
  have hload : ofDocument chaining.document "WGPU" = .ok chaining := rfl
  have hok : (chaining.records (Settings.standard.withExclusion ⟨["internal"], by decide⟩)).result =
      .ok [⟨"descriptor", .record "WGPUDescriptor"
        [⟨⟨.primitive .chainedStruct, some .constPointer⟩, "nextInChain"⟩,
          ⟨⟨.primitive .string, none⟩, "label"⟩, ⟨⟨.primitive .uint32, none⟩, "chain"⟩]⟩] := by
    decide +kernel
  obtain ⟨type, record, htype, hrecord, -, -, hdistinct⟩ :=
    fields_distinct_iff hload hok List.mem_cons_self
  obtain rfl := Option.some.inj htype
  obtain rfl := Option.some.inj hrecord
  exact ⟨_, hok, _, List.mem_cons_self, rfl, rfl, hdistinct.mpr (by decide +kernel)⟩

/-- The document is loaded and its record is written, with one name twice. -/
theorem chaining_fields_not_distinct : ofDocument chaining.document "WGPU" = .ok chaining ∧
    ∃ items, (chaining.records .standard).result = .ok items ∧
      ∃ item ∈ items, item.declaration.innerNames.count "nextInChain" = 2 ∧
        ¬ item.declaration.innerNames.Nodup := by
  have hok : (chaining.records .standard).result = .ok [⟨"descriptor", .record "WGPUDescriptor"
      [⟨⟨.primitive .chainedStruct, some .constPointer⟩, "nextInChain"⟩,
        ⟨⟨.primitive .string, none⟩, "label"⟩, ⟨⟨.primitive .uint32, none⟩, "chain"⟩,
        ⟨⟨.primitive .uint32, none⟩, "nextInChain"⟩]⟩] := by
    decide +kernel
  exact ⟨rfl, _, hok, _, List.mem_cons_self, by decide, by decide⟩

/-! ### Enumerations -/

theorem enumeration_of_mem {type : DeclaredType} {name : String} {values : List Enumerator}
    (hmem : .enumeration name values ∈ enumerationDeclarations settings type) :
    ∃ e, type.node.enumeration? = some e ∧ type.name = name ∧
      values = enumerators settings name e.items := by
  obtain ⟨key, typeName, node⟩ := type
  cases node with
  | enumeration e | bitmask e =>
    simp only [enumerationDeclarations, List.mem_cons, List.not_mem_nil, or_false,
      Declaration.enumeration.injEq, reduceCtorEq] at hmem
    obtain ⟨rfl, rfl⟩ := hmem
    exact ⟨e, rfl, rfl, rfl⟩
  | _ => cases hmem

/-- Names that begin alike are told apart by how they end. -/
theorem nodup_map_append_sentinel_iff {α : Type} {items : List α} {spell : α → String}
    (name : String) (hnodup : (items.map spell).Nodup) :
    ((items.map fun i ↦ name ++ "_" ++ spell i) ++ [name ++ "_Force32"]).Nodup ↔
      ∀ i ∈ items, spell i ≠ "Force32" := by
  have hsentinel : name ++ "_Force32" = name ++ "_" ++ "Force32" := by
    rw [String.append_assoc]
    rfl
  have hspellings : (items.map fun i ↦ name ++ "_" ++ spell i) ++ [name ++ "_Force32"] =
      (items.map spell ++ ["Force32"]).map (name ++ "_" ++ ·) := by
    rw [hsentinel, List.map_append, List.map_map]
    rfl
  rw [hspellings, List.nodup_map_iff fun first second h ↦ (String.append_right_inj _).mp h,
    ← List.concat_eq_append, List.nodup_concat, and_iff_left hnodup]
  simp only [List.mem_map, not_exists, not_and, ne_eq]

/-- An enumeration has a line for each of its names: those of its values that are kept, and
that of the sentinel. They are distinct exactly if no such value is spelled as the
sentinel. -/
theorem enumerators_distinct_iff (hload : ofDocument document typePrefix = .ok schema)
    (hitem : item ∈ schema.enumerations settings) {name : String} {values : List Enumerator}
    (hdeclaration : item.declaration = .enumeration name values) :
    ∃ type e, schema.type? item.key = some type ∧ type.name = name ∧
      type.node.enumeration? = some e ∧
      LinesBetween ("typedef enum " ++ name ++ " \x7b\n") ("\x7d " ++ name ++ ";\n\n")
        EnumeratorLine item.declaration.innerNames
        (item.declaration.text settings.typePrefix) ∧
      item.declaration.innerNames =
        ((e.items.filter fun i ↦ settings.keeps i.tags).map fun i ↦
          name ++ "_" ++ Text.valueCase i.name) ++ [name ++ "_Force32"] ∧
      (item.declaration.innerNames.Nodup ↔ ∀ i ∈ e.items, settings.keeps i.tags = true →
        Text.valueCase i.name ≠ "Force32") := by
  obtain ⟨type, htype, -, hmem⟩ := (mem_items_iff (schema.enumerations_eq_gather settings)).mp hitem
  rw [hdeclaration] at hmem ⊢
  obtain ⟨e, henumeration, hname, rfl⟩ := enumeration_of_mem hmem
  have hnames : (Declaration.enumeration name (enumerators settings name e.items)).innerNames =
      ((e.items.filter fun i ↦ settings.keeps i.tags).map fun i ↦
        name ++ "_" ++ Text.valueCase i.name) ++ [name ++ "_Force32"] := by
    rw [Declaration.innerNames, map_name_enumerators]
  refine ⟨type, e, htype, hname, henumeration, linesBetween_enumeration _ _ _, hnames, ?_⟩
  have hown : ((e.items.filter fun i ↦ settings.keeps i.tags).map fun i ↦
      Text.valueCase i.name).Nodup :=
    (Node.nodup_items (namesDistinct hload (declares_of_type? htype).2.2) henumeration).sublist
      (List.filter_sublist.map _)
  rw [hnames, nodup_map_append_sentinel_iff name hown]
  simp only [List.mem_filter, and_imp]

/-- An enumeration with a value that has a tag and is spelled as the sentinel. -/
def ending : Schema where
  document := ⟨[("mode", .enumeration ⟨[⟨"force 3", none, []⟩,
    ⟨"force-32", some 7, ["internal"]⟩, ⟨"forced", none, []⟩], []⟩)], by decide⟩
  catalogue := ⟨[("mode", ⟨"WGPUMode", .enumeration⟩)], by decide⟩

/-- Without the value that has a tag, the names are distinct. -/
theorem ending_enumerators_distinct :
    ∃ item ∈ ending.enumerations (Settings.standard.withExclusion ⟨["internal"], by decide⟩),
      item.key = "mode" ∧ item.declaration.innerNames =
        ["WGPUMode_Force3", "WGPUMode_Forced", "WGPUMode_Force32"] ∧
      item.declaration.innerNames.Nodup := by
  have hload : ofDocument ending.document "WGPU" = .ok ending := rfl
  have hitem : ⟨"mode", .enumeration "WGPUMode" [⟨"WGPUMode_Force3", 0⟩, ⟨"WGPUMode_Forced", 8⟩]⟩ ∈
      ending.enumerations (Settings.standard.withExclusion ⟨["internal"], by decide⟩) := by
    decide +kernel
  obtain ⟨type, e, htype, -, henumeration, -, -, hdistinct⟩ :=
    enumerators_distinct_iff hload hitem rfl
  obtain rfl := Option.some.inj htype
  obtain rfl := Option.some.inj henumeration
  exact ⟨_, hitem, rfl, rfl, hdistinct.mpr (by decide +kernel)⟩

/-- The document is loaded and its enumeration is written, with one name twice. -/
theorem ending_enumerators_not_distinct : ofDocument ending.document "WGPU" = .ok ending ∧
    ∃ item ∈ ending.enumerations .standard,
      item.declaration.innerNames.count "WGPUMode_Force32" = 2 ∧
        ¬ item.declaration.innerNames.Nodup := by
  have hitem : ⟨"mode", .enumeration "WGPUMode" [⟨"WGPUMode_Force3", 0⟩, ⟨"WGPUMode_Force32", 7⟩,
      ⟨"WGPUMode_Forced", 8⟩]⟩ ∈ ending.enumerations .standard := by
    decide +kernel
  exact ⟨rfl, _, hitem, by decide, by decide⟩

end Schema

end ApiHeader
