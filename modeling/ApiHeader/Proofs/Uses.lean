import ApiHeader.Proofs.Coverage
import ApiHeader.Proofs.Lines

/-!
# What lines use

`Schema.Means` relates a type name of a description to the name that a header writes for
it and has to introduce: that of a type of the catalogue, of the word type for truth
values, or of a link of a chain (`means_cases`). Whatever a line uses is what some type
name means, in an alias one that the alias mentions (`means_of_isAliasLine`).
-/

set_option autoImplicit false
set_option relaxedAutoImplicit false

namespace ApiHeader

theorem Direction.exists_ofName?_eq_link (direction : Direction) :
    ∃ type, Primitive.ofName? type = some direction.link := by
  cases direction with
  | inward => exact ⟨"chained struct", rfl⟩
  | outward => exact ⟨"chained struct out", rfl⟩

theorem Direction.own?_link (direction : Direction) (typePrefix : String) :
    TypeName.own? typePrefix (.primitive direction.link) =
      some (direction.link.text typePrefix) := by
  cases direction <;> rfl

theorem Settings.keeps_of_empty {settings : Settings} (hall : settings.exclusion = .empty)
    (tags : List Tag) : settings.keeps tags = true := by
  rw [Settings.keeps, hall]
  simp [Exclusion.excludes, Exclusion.empty]

namespace Schema

variable {document : Document} {typePrefix : String} {schema : Schema} {settings : Settings}
  {header : Header} {type context name : String} {written : TypeName}

/-! ### Names that type names mean -/

/-- A type name of a description is written as a name that the header introduces. -/
def Means (schema : Schema) (settings : Settings) (type name : String) : Prop :=
  ∃ context written, schema.resolve type context = .ok written ∧
    written.own? settings.typePrefix = some name

theorem means_cases (hload : ofDocument document typePrefix = .ok schema)
    (h : schema.Means settings type name) :
    (∃ declared, schema.type? type = some declared ∧ declared.name = name) ∨
      name = settings.typePrefix ++ "Bool" ∨
      ∃ direction : Direction, Primitive.ofName? type = some direction.link ∧
        name = direction.link.text settings.typePrefix := by
  obtain ⟨context, written, hresolve, hown⟩ := h
  rcases schema.resolve_cases hresolve with ⟨p, hprimitive, rfl⟩ | ⟨entry, hentry, rfl⟩ | rfl
  · rw [TypeName.own?] at hown
    split at hown
    · rename_i hisOwn
      rcases Primitive.isOwn_iff.mp hisOwn with rfl | ⟨direction, rfl⟩
      · exact .inr (.inl (Option.some.inj hown).symm)
      · exact .inr (.inr ⟨direction, hprimitive, (Option.some.inj hown).symm⟩)
    · cases hown
  · obtain ⟨declared, hdeclared⟩ :=
      exists_type_of_contains hload (Table.contains_iff.mpr ⟨entry, hentry⟩)
    obtain ⟨-, -, other, hother, hname⟩ := type?_eq_some_iff.mp hdeclared
    obtain rfl := Option.some.inj (hentry.symm.trans hother)
    exact .inl ⟨declared, hdeclared, hname.symm.trans (Option.some.inj hown)⟩
  · cases hown

section Uses

variable {owner : String} {members arguments : List Member} {parameters : List Declarator}
  {returns : Option String} {result : TypeRef}

/-- The types that declarators are written with are those of their members. -/
theorem mem_types_declarators_iff (h : schema.declarators owner members = .ok parameters) :
    written ∈ parameters.map (·.type.name) ↔
      ∃ member ∈ members, schema.resolve member.type (owner ++ "." ++ member.name) =
        .ok written := by
  rw [List.mem_map]
  constructor
  · rintro ⟨parameter, hparameter, rfl⟩
    obtain ⟨member, hmember, hparameter⟩ := (mem_mapM_iff h).mp hparameter
    obtain ⟨ref, href, hparameter⟩ := bind_eq_ok_iff.mp hparameter
    obtain ⟨resolved, hresolved, href⟩ := bind_eq_ok_iff.mp href
    obtain rfl := Except.ok.inj href
    obtain rfl := Except.ok.inj hparameter
    exact ⟨member, hmember, hresolved⟩
  · rintro ⟨member, hmember, hresolved⟩
    refine ⟨⟨⟨written, member.indirection⟩, Text.camelCase member.name⟩,
      (mem_mapM_iff h).mpr ⟨member, hmember, ?_⟩, rfl⟩
    rw [declarator, typeRef, hresolved]
    rfl

/-- The own names in a signature are those that its type names mean. -/
theorem means_of_mem_signature (hresult : schema.returnType returns owner = .ok result)
    (hparameters : schema.declarators owner (settings.keptMembers arguments) = .ok parameters)
    (hmem : written ∈ result.name :: parameters.map (·.type.name))
    (hown : written.own? settings.typePrefix = some name) :
    ∃ type ∈ returns.toList ++ arguments.map Member.type, schema.Means settings type name := by
  rcases List.mem_cons.mp hmem with rfl | hmem
  · cases returns with
    | none =>
      obtain rfl := Except.ok.inj hresult
      cases hown
    | some type =>
      obtain ⟨resolved, hresolved, hresult⟩ := bind_eq_ok_iff.mp hresult
      obtain rfl := Except.ok.inj hresult
      exact ⟨type, List.mem_cons_self, owner, resolved, hresolved, hown⟩
  · obtain ⟨member, hmember, hresolved⟩ := (mem_types_declarators_iff hparameters).mp hmem
    have hargument : member ∈ arguments := (List.mem_filter.mp hmember).1
    exact ⟨member.type, List.mem_append_right _ (List.mem_map_of_mem hargument), _, _,
      hresolved, hown⟩

end Uses

theorem aliasMentions_pointer {node : Node} {signature : Signature}
    (hpointer : node.pointer? = some signature) :
    aliasMentions node = signature.returns.toList ++ signature.arguments.map Member.type := by
  cases node with
  | functionPointer other => rw [← Option.some.inj hpointer, aliasMentions]
  | callback other => rw [← Option.some.inj hpointer, aliasMentions]
  | _ => cases hpointer

/-- An alias uses what the type names that it mentions mean. -/
theorem means_of_isAliasLine {item : Item} (hline : schema.IsAliasLine settings item)
    (huses : name ∈ (Line.declaration item.declaration).uses settings.typePrefix) :
    ∃ node, schema.Declares item.key node ∧
      ∃ type ∈ aliasMentions node, schema.Means settings type name := by
  obtain ⟨declared, htype, -, hline⟩ := hline
  refine ⟨declared.node, (declares_of_type? htype).2, ?_⟩
  rcases hline with ⟨typedef, target, hnode, htarget, hdeclaration⟩ |
    ⟨signature, result, parameters, hpointer, hresult, hparameters, hdeclaration⟩
  · rw [hdeclaration] at huses
    obtain ⟨written, hmem, hown⟩ := List.mem_filterMap.mp huses
    obtain rfl := List.mem_singleton.mp hmem
    obtain ⟨resolved, hresolved, htarget⟩ := bind_eq_ok_iff.mp htarget
    obtain rfl := Except.ok.inj htarget
    rw [hnode]
    exact ⟨typedef.target, List.mem_singleton_self _, item.key, resolved, hresolved, hown⟩
  · rw [hdeclaration] at huses
    obtain ⟨written, hmem, hown⟩ := List.mem_filterMap.mp huses
    obtain ⟨type, htypes, hmeans⟩ := means_of_mem_signature hresult hparameters hmem hown
    rw [aliasMentions_pointer hpointer]
    exact ⟨type, htypes, hmeans⟩

/-- An alias of the catalogue mentions the primitive for the links of a direction. -/
def NamesLink (schema : Schema) (key : Key) (direction : Direction) : Prop :=
  ∃ node, schema.Declares key node ∧
    ∃ type ∈ aliasMentions node, Primitive.ofName? type = some direction.link

theorem resolve_link {direction : Direction} (h : Primitive.ofName? type = some direction.link) :
    schema.resolve type context = .ok (.primitive direction.link) := by
  rw [resolve, h]

/-- With nothing excluded, the line of an alias uses the links that the alias names. -/
theorem NamesLink.mem_uses {item : Item} {direction : Direction}
    (hlink : schema.NamesLink item.key direction) (hall : settings.exclusion = .empty)
    (hline : schema.IsAliasLine settings item) :
    direction.link.text settings.typePrefix ∈
      (Line.declaration item.declaration).uses settings.typePrefix := by
  obtain ⟨node, hdeclares, type, hmention, hprimitive⟩ := hlink
  obtain ⟨declared, htype, -, hline⟩ := hline
  have hnode : declared.node = node := node_eq_of_type? htype hdeclares.2
  refine Line.mem_uses ?_ (direction.own?_link _)
  rcases hline with ⟨typedef, target, htypedef, htarget, hdeclaration⟩ |
    ⟨signature, result, parameters, hpointer, hresult, hparameters, hdeclaration⟩
  · rw [← hnode, htypedef] at hmention
    obtain rfl := List.mem_singleton.mp hmention
    rw [typeRef, resolve_link hprimitive] at htarget
    rw [hdeclaration, ← Except.ok.inj htarget]
    exact List.mem_singleton_self _
  · rw [← hnode, aliasMentions_pointer hpointer] at hmention
    rw [hdeclaration]
    rcases List.mem_append.mp hmention with hreturns | hargument
    · rw [Option.mem_toList.mp hreturns, returnType, typeRef, resolve_link hprimitive] at hresult
      rw [← Except.ok.inj hresult]
      exact List.mem_cons_self
    · obtain ⟨member, hmember, rfl⟩ := List.mem_map.mp hargument
      refine List.mem_cons_of_mem _ ((mem_types_declarators_iff hparameters).mpr ?_)
      exact ⟨member, List.mem_filter.mpr ⟨hmember, Settings.keeps_of_empty hall _⟩,
        resolve_link hprimitive⟩

/-! ### The other lines -/

theorem chainLinks_eq_ok (settings : Settings) {links : List Declaration}
    (hok : schema.chainLinks.result = .ok links) :
    ∃ tag : TypeName, (∀ name, tag.own? settings.typePrefix = some name →
        schema.Means settings chainTagKey name) ∧
      links = [.chainLink .inward tag, .chainLink .outward tag] := by
  rw [chainLinks, Logged.result_bind, chainTag] at hok
  cases hentry : schema.catalogue.get? chainTagKey with
  | none =>
    rw [hentry] at hok
    refine ⟨.primitive .uint32, fun name hown ↦ ?_, (Except.ok.inj hok).symm⟩
    cases hown
  | some entry =>
    rw [hentry] at hok
    refine ⟨.declared entry.name, fun name hown ↦ ⟨"", _, ?_, hown⟩, (Except.ok.inj hok).symm⟩
    have hnone : Primitive.ofName? chainTagKey = none := rfl
    rw [resolve, hnone, hentry]

theorem eq_link_of_mem_chainMember {record : Record}
    (h : written ∈ (chainMember record).map (·.type.name)) :
    ∃ direction : Direction, written = .primitive direction.link := by
  unfold chainMember at h
  split at h
  · exact ⟨.inward, List.mem_singleton.mp h⟩
  · exact ⟨.outward, List.mem_singleton.mp h⟩
  · exact ⟨_, List.mem_singleton.mp h⟩
  · cases h

theorem means_of_isBody {item : Item} (hbody : schema.IsBody settings item)
    (huses : name ∈ (Line.declaration item.declaration).uses settings.typePrefix) :
    ∃ type, schema.Means settings type name := by
  obtain ⟨declared, record, members, -, -, -, hmembers, hdeclaration⟩ := hbody
  rw [hdeclaration] at huses
  obtain ⟨written, hmem, hown⟩ := List.mem_filterMap.mp huses
  rw [Line.types, Declaration.types, List.map_append, List.mem_append] at hmem
  rcases hmem with hchain | hmem
  · obtain ⟨direction, rfl⟩ := eq_link_of_mem_chainMember hchain
    obtain ⟨type, htype⟩ := direction.exists_ofName?_eq_link
    exact ⟨type, "", _, resolve_link htype, hown⟩
  · obtain ⟨member, -, hresolved⟩ := (mem_types_declarators_iff hmembers).mp hmem
    exact ⟨member.type, _, written, hresolved, hown⟩

theorem means_of_mem_prototypes {prototypes : List Prototype}
    (hok : schema.prototypes settings = .ok prototypes) {prototype : Prototype}
    (hmem : prototype ∈ prototypes) (hwritten : written ∈ prototype.types)
    (hown : written.own? settings.typePrefix = some name) :
    ∃ type, schema.Means settings type name := by
  rcases from_of_mem_prototypes hok hmem with
    ⟨signature, -, hprototype⟩ | ⟨object, method, -, -, handle, hhandle, hprototype⟩
  · obtain ⟨result, parameters, hresult, hparameters, heq⟩ :=
      signaturePrototype_eq_ok_iff.mp hprototype
    rw [heq] at hwritten
    obtain ⟨type, -, hmeans⟩ := means_of_mem_signature hresult hparameters hwritten hown
    exact ⟨type, hmeans⟩
  · obtain ⟨result, parameters, hresult, hparameters, heq⟩ :=
      signaturePrototype_eq_ok_iff.mp hprototype
    by_cases hreceiver : written = handle
    · rw [hreceiver] at hown
      exact ⟨prototype.key, _, handle, hhandle, hown⟩
    · have hrest : written ∈ result.name :: parameters.map (·.type.name) := by
        rw [heq] at hwritten
        simpa [Prototype.types, receiver, hreceiver] using hwritten
      obtain ⟨type, -, hmeans⟩ := means_of_mem_signature hresult hparameters hrest hown
      exact ⟨type, hmeans⟩

/-- A link of a chain uses itself and the type that tells kinds of links apart. -/
theorem means_of_mem_chainLinks {links : List Declaration}
    (hok : schema.chainLinks.result = .ok links) {link : Declaration} (hlink : link ∈ links)
    (huses : name ∈ (Line.declaration link).uses settings.typePrefix) :
    name ∈ (Line.declaration link).structTags settings.typePrefix ∨
      schema.Means settings chainTagKey name := by
  obtain ⟨tag, htag, hlinks⟩ := chainLinks_eq_ok settings hok
  obtain ⟨direction, rfl⟩ : ∃ direction, link = .chainLink direction tag := by
    rw [hlinks] at hlink
    rcases List.mem_pair.mp hlink with rfl | rfl
    · exact ⟨.inward, rfl⟩
    · exact ⟨.outward, rfl⟩
  obtain ⟨written, hmem, hown⟩ := List.mem_filterMap.mp huses
  rcases List.mem_pair.mp hmem with rfl | rfl
  · rw [direction.own?_link] at hown
    exact .inl (List.mem_singleton.mpr (Option.some.inj hown).symm)
  · exact .inr (htag name hown)

/-- The lines after the links use what type names mean. -/
theorem means_of_mem_closingLines (hok : (schema.header settings).result = .ok header)
    {line : Line} (hline : line ∈ header.closingLines settings)
    (huses : name ∈ line.uses settings.typePrefix) : ∃ type, schema.Means settings type name := by
  obtain ⟨hprototypes, -, -, -, hrecords, -⟩ := header_eq_ok_iff.mp hok
  rcases Header.mem_closingLines_cases hline with
    ⟨item, hitem, rfl⟩ | ⟨prototype, hprototype, hcase⟩
  · exact means_of_isBody (isBody_of_mem_records hrecords hitem) huses
  · have htypes : name ∈ prototype.types.filterMap (TypeName.own? settings.typePrefix) := by
      rcases hcase with rfl | rfl <;> exact huses
    obtain ⟨written, hwritten, hown⟩ := List.mem_filterMap.mp htypes
    exact means_of_mem_prototypes hprototypes hprototype hwritten hown

end Schema

end ApiHeader
