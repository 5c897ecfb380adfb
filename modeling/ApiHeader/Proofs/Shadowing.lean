import ApiHeader.Proofs.RecordOrder

/-!
# Aliases with the name of a primitive

A member is written with the primitive that its type names, if there is one, but the
links of a record go through an alias of that name. So the links tell what records
enclose as their members are written (`Schema.Encloses`), and besides what lies behind
an alias that a primitive shadows (`links_follow_shadowed`).
-/

set_option autoImplicit false
set_option relaxedAutoImplicit false

namespace ApiHeader

namespace Schema

variable {document : Document} {typePrefix : String} {schema : Schema}

/-! ### Members as they are written -/

/-- A key with this node is written as the name of a type of the catalogue. -/
def WrittenAs (schema : Schema) (key : Key) (node : Node) : Prop :=
  schema.document.get? key = some node ∧
    ∀ context, ∃ name, schema.resolve key context = .ok (.declared name)

theorem writtenAs_iff (hload : ofDocument document typePrefix = .ok schema) {key : Key}
    {node : Node} : schema.WrittenAs key node ↔ schema.Declares key node := by
  constructor
  · rintro ⟨hnode, hwritten⟩
    obtain ⟨name, hresolve⟩ := hwritten key
    rcases schema.resolve_cases hresolve with ⟨_, -, hother⟩ | ⟨entry, hentry, -⟩ | hother
    · cases hother
    · exact ⟨Table.contains_iff.mpr ⟨entry, hentry⟩, hnode⟩
    · cases hother
  · intro hdeclares
    refine ⟨hdeclares.2, fun context ↦ ?_⟩
    have hregisters := ((declares_iff hload).mp hdeclares).2
    rw [Catalogue.registers, Bool.and_eq_true, Option.isNone_iff_eq_none] at hregisters
    obtain ⟨entry, hentry⟩ := Table.contains_iff.mp hdeclares.1
    refine ⟨entry.name, ?_⟩
    rw [resolve, hregisters.2, hentry]

/-- What a type name denotes as it is written: a record itself, or what an alias denotes
that does not point. The name of a primitive denotes no record. -/
inductive Denotes (schema : Schema) : Key → Key → Prop where
  | self {key : Key} {node : Node} {record : Record} (hwritten : schema.WrittenAs key node)
      (hrecord : node.record? = some record) : Denotes schema key key
  | through {key target : Key} {typedef : Typedef}
      (hwritten : schema.WrittenAs key (.typedef typedef)) (hdirect : typedef.indirection = none)
      (hrest : Denotes schema typedef.target target) : Denotes schema key target

theorem denotes_iff (hload : ofDocument document typePrefix = .ok schema) {key target : Key} :
    schema.Denotes key target ↔
      (∃ record, schema.HasRecord target record) ∧ schema.StandsFor key target := by
  constructor
  · intro hdenotes
    induction hdenotes with
    | self hwritten hrecord =>
      exact ⟨⟨_, _, (writtenAs_iff hload).mp hwritten, hrecord⟩, .self _⟩
    | through hwritten hdirect _ ih =>
      exact ⟨ih.1, .through ((writtenAs_iff hload).mp hwritten) hdirect ih.2⟩
  · rintro ⟨⟨record, hhas⟩, hstands⟩
    induction hstands with
    | self key =>
      obtain ⟨node, hdeclares, hrecord⟩ := hhas
      exact .self ((writtenAs_iff hload).mpr hdeclares) hrecord
    | through hdeclares hdirect _ ih =>
      exact .through ((writtenAs_iff hload).mpr hdeclares) hdirect (ih hhas)

/-- As its members are written, a record has another inside it. -/
def Encloses (schema : Schema) (key target : Key) : Prop :=
  ∃ record, schema.HasRecord key record ∧
    ∃ member ∈ record.members, member.indirection = none ∧ schema.Denotes member.type target

/-! ### Shadowed aliases -/

/-- The document has an alias with the name of a primitive. -/
def Shadows (schema : Schema) (key : Key) : Prop :=
  (Primitive.ofName? key).isSome = true ∧
    ∃ typedef, schema.document.get? key = some (.typedef typedef)

/-- The type of a member unfolds to a record by way of a shadowed alias. -/
def EnclosesBehind (schema : Schema) (key target : Key) : Prop :=
  ∃ record, schema.HasRecord key record ∧ (∃ other, schema.HasRecord target other) ∧
    ∃ member ∈ record.members, member.indirection = none ∧
      ∃ shadow, schema.Shadows shadow ∧ schema.document.Unfolds member.type shadow ∧
        schema.document.Unfolds shadow target

theorem declares_or_shadows (hload : ofDocument document typePrefix = .ok schema) {key : Key}
    {typedef : Typedef} (hnode : schema.document.get? key = some (.typedef typedef)) :
    schema.Declares key (.typedef typedef) ∨ schema.Shadows key := by
  by_cases hprimitive : (Primitive.ofName? key).isSome = true
  · exact .inr ⟨hprimitive, typedef, hnode⟩
  · refine .inl ((declares_iff hload).mpr ⟨hnode, ?_⟩)
    rw [Catalogue.registers, Bool.and_eq_true]
    exact ⟨rfl, by simpa using hprimitive⟩

/-- A type name that unfolds to another stands for it, or a shadowed alias is passed. -/
theorem standsFor_or_shadows (hload : ofDocument document typePrefix = .ok schema)
    {key target : Key} (hunfolds : schema.document.Unfolds key target) :
    schema.StandsFor key target ∨ ∃ shadow, schema.Shadows shadow ∧
      schema.document.Unfolds key shadow ∧ schema.document.Unfolds shadow target := by
  induction hunfolds with
  | self key => exact .inl (.self key)
  | through hnode hdirect hrest ih =>
    rcases declares_or_shadows hload hnode with hdeclares | hshadows
    · rcases ih with hstands | ⟨shadow, hshadows, hbefore, hafter⟩
      · exact .inl (.through hdeclares hdirect hstands)
      · exact .inr ⟨shadow, hshadows, .through hnode hdirect hbefore, hafter⟩
    · exact .inr ⟨_, hshadows, .self _, .through hnode hdirect hrest⟩

theorem holds_iff_encloses (hload : ofDocument document typePrefix = .ok schema)
    {key target : Key} : schema.Holds key target ↔
      schema.Encloses key target ∨ schema.EnclosesBehind key target := by
  rw [holds_iff_unfolds hload]
  constructor
  · rintro ⟨record, hhas, htarget, member, hmember, hdirect, hunfolds⟩
    rcases standsFor_or_shadows hload hunfolds with hstands | hshadow
    · exact .inl ⟨record, hhas, member, hmember, hdirect,
        (denotes_iff hload).mpr ⟨htarget, hstands⟩⟩
    · exact .inr ⟨record, hhas, htarget, member, hmember, hdirect, hshadow⟩
  · rintro (⟨record, hhas, member, hmember, hdirect, hdenotes⟩ |
      ⟨record, hhas, htarget, member, hmember, hdirect, shadow, -, hbefore, hafter⟩)
    · obtain ⟨htarget, hstands⟩ := (denotes_iff hload).mp hdenotes
      exact ⟨record, hhas, htarget, member, hmember, hdirect, hstands.unfolds⟩
    · exact ⟨record, hhas, htarget, member, hmember, hdirect, hbefore.trans hafter⟩

/-- Where records that do not enclose one another in a cycle are refused for one, the
links tell more than they enclose. -/
theorem exists_enclosesBehind_of_cyclic (hload : ofDocument document typePrefix = .ok schema)
    {settings : Settings} {path : List Key}
    (herror : (schema.records settings).result = .error (.cyclic path))
    (hacyclic : Acyclic schema.Encloses) :
    ∃ key target, schema.EnclosesBehind key target ∧ ¬ schema.Encloses key target := by
  by_contra hnone
  have hsame : schema.Holds = schema.Encloses := by
    ext key target
    rw [holds_iff_encloses hload]
    refine or_iff_left_of_imp fun hbehind ↦ ?_
    by_contra hencloses
    exact hnone ⟨key, target, hbehind, hencloses⟩
  have hcycle := simpleCycle_of_checks (checks_records hload settings) herror
  rw [hsame] at hcycle
  exact hcycle.not_acyclic hacyclic

/-- The links tell by value what records enclose as their members are written, over all
members, and what they have behind an alias that a primitive shadows. Where records do
not enclose one another in a cycle, one is told only because of the latter; without an
alias of the name of a primitive, links and writing agree, and none is told. -/
theorem links_follow_shadowed (hload : ofDocument document typePrefix = .ok schema)
    (settings : Settings) :
    (∀ key target, schema.Holds key target ↔
      schema.Encloses key target ∨ schema.EnclosesBehind key target) ∧
    (∀ path, (schema.records settings).result = .error (.cyclic path) →
      Acyclic schema.Encloses →
        ∃ key target, schema.EnclosesBehind key target ∧ ¬ schema.Encloses key target) ∧
    ((∀ key, ¬ schema.Shadows key) →
      (∀ key target, schema.Holds key target ↔ schema.Encloses key target) ∧
      (Acyclic schema.Encloses →
        ∀ path, (schema.records settings).result ≠ .error (.cyclic path))) := by
  refine ⟨fun key target ↦ holds_iff_encloses hload, fun path herror hacyclic ↦
    exists_enclosesBehind_of_cyclic hload herror hacyclic, fun hnone ↦ ?_⟩
  have hbehind (key target : Key) : ¬ schema.EnclosesBehind key target := by
    rintro ⟨_, -, -, _, -, -, shadow, hshadows, -⟩
    exact hnone shadow hshadows
  refine ⟨fun key target ↦ ?_, fun hacyclic path herror ↦ ?_⟩
  · rw [holds_iff_encloses hload, or_iff_left (hbehind key target)]
  · obtain ⟨key, target, h, -⟩ := exists_enclosesBehind_of_cyclic hload herror hacyclic
    exact hbehind key target h

theorem nested_links_agree :
    (∀ key target, nested.Holds key target ↔ nested.Encloses key target) ∧
      nested.Encloses "outer" "middle" := by
  have hload : ofDocument nested.document "WGPU" = .ok nested := rfl
  have hnone (key : Key) : ¬ nested.Shadows key := by
    rintro ⟨hprimitive, typedef, hnode⟩
    have hmem : (key, Node.typedef typedef) ∈ nested.document.entries :=
      Table.get?_eq_some_iff.mp hnode
    simp only [nested, List.mem_cons, Prod.mk.injEq, List.not_mem_nil, reduceCtorEq, and_false,
      false_or, or_false] at hmem
    rw [hmem.1] at hprimitive
    cases hprimitive
  have hagree := ((links_follow_shadowed hload .standard).2.2 hnone).1
  have hholds : "middle" ∈ heldBy nested.links "outer" := by decide +kernel
  exact ⟨hagree, (hagree "outer" "middle").mp hholds⟩

/-- A record with a member that is written as a primitive, and an alias of that name for
the record. -/
def shadowed : Schema where
  document := ⟨[("bool", .typedef { target := "state", indirection := none, tags := [] }),
    ("state", .record ⟨[⟨"lost", "bool", none, []⟩], none, none, []⟩)], by decide⟩
  catalogue := ⟨[("state", ⟨"WGPUState", .record⟩)], by decide⟩

/-- The record encloses nothing, and is refused for holding itself. -/
theorem shadowed_told_cyclic : ofDocument shadowed.document "WGPU" = .ok shadowed ∧
    shadowed.Holds "state" "state" ∧ (∀ key target, ¬ shadowed.Encloses key target) ∧
    (shadowed.records .standard).result = .error (.cyclic ["state", "state"]) := by
  have hholds : "state" ∈ heldBy shadowed.links "state" := by decide +kernel
  refine ⟨rfl, hholds, ?_, by decide +kernel⟩
  rintro key target ⟨record, ⟨node, hdeclares, hrecord⟩, member, hmember, -, hdenotes⟩
  have htype : member.type = "bool" := by
    rcases List.mem_pair.mp (Table.get?_eq_some_iff.mp hdeclares.2) with halias | hstate
    · rw [(Prod.mk.inj halias).2] at hrecord
      cases hrecord
    · rw [(Prod.mk.inj hstate).2] at hrecord
      obtain rfl := Option.some.inj hrecord
      obtain rfl := List.mem_singleton.mp hmember
      rfl
  have hprimitive {found : Node} : ¬ shadowed.WrittenAs "bool" found := by
    rintro ⟨-, hwritten⟩
    obtain ⟨_, hresolve⟩ := hwritten ""
    cases hresolve
  rw [htype] at hdenotes
  cases hdenotes with
  | self hwritten _ => exact hprimitive hwritten
  | through hwritten _ _ => exact hprimitive hwritten

end Schema

end ApiHeader
