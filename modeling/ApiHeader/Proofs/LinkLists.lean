import ApiHeader.Proofs.Links

/-!
# The links of each record

There are links for the records of the catalogue, in its order. The links of a record go
to the records that the types of its members lead to, each once, in the order in which the
members first lead there; a link is by value exactly if some member holds its target,
before or after members that only point to it (`links_told`). Links go to records that
have links themselves. A type whose aliases run in a cycle leads to none
(`alias_chains_resolved`).
-/

set_option autoImplicit false
set_option relaxedAutoImplicit false

namespace ApiHeader

namespace Link

/-! ### Merging -/

/-- A link to a new target comes last, and one to a known target adds none. -/
theorem targets_merge (link : Link) (links : List Link) :
    (link.merge links).map target =
      if link.target ∈ links.map target then links.map target
      else links.map target ++ [link.target] := by
  induction links with
  | nil => rfl
  | cons first rest ih =>
    rw [merge]
    by_cases hfirst : first.target = link.target
    · simp [hfirst]
    · have hfirst' : ¬ link.target = first.target := fun h ↦ hfirst h.symm
      rw [if_neg hfirst, List.map_cons, ih, List.map_cons]
      simp only [List.mem_cons, hfirst', false_or]
      split <;> rfl

/-- The targets of merged links stand where they first occur. -/
theorem targets_foldl_merge {news links : List Link} {seen : List Key}
    (hseen : links.map target = seen.eraseDups) :
    (news.foldl (fun links link ↦ link.merge links) links).map target =
      (seen ++ news.map target).eraseDups := by
  induction news generalizing links seen with
  | nil => simpa using hseen
  | cons link rest ih =>
    have hstep : (link.merge links).map target = (seen ++ [link.target]).eraseDups := by
      rw [targets_merge, hseen, eraseDups_concat]
      simp only [List.mem_eraseDups]
    rw [List.foldl_cons, ih hstep, List.map_cons, List.append_assoc, List.singleton_append]

theorem nodup_targets_foldl_merge (news : List Link) {links : List Link}
    (hnodup : (links.map target).Nodup) :
    ((news.foldl (fun links link ↦ link.merge links) links).map target).Nodup := by
  induction news generalizing links with
  | nil => exact hnodup
  | cons link rest ih =>
    apply ih
    rw [targets_merge]
    split
    · exact hnodup
    · rename_i hmem
      rw [← List.concat_eq_append]
      exact hnodup.concat hmem

/-- Of the links to distinct targets, the one to a record tells whether it is held. -/
theorem byValue_iff_holding {links : List Link} (hnodup : (links.map target).Nodup) {link : Link}
    (hlink : link ∈ links) : link.byValue = true ↔ Holding links link.target := by
  constructor
  · intro hvalue
    exact ⟨link, hlink, rfl, hvalue⟩
  · rintro ⟨other, hother, htarget, hvalue⟩
    rwa [← List.inj_on_of_nodup_map hnodup hother hlink htarget]

end Link

namespace Schema

/-- The records that the members of a record lead to, member by member. -/
def memberTargets (schema : Schema) (record : Record) : List Key :=
  (record.members.map fun member ↦ (schema.document.expand member.type).target).filter
    schema.isRecordKey

variable {document : Document} {typePrefix : String} {schema : Schema}

theorem map_target_link? (schema : Schema) (member : Member) :
    (schema.link? member).map Link.target =
      Option.guard schema.isRecordKey (schema.document.expand member.type).target := by
  rw [link?, Option.guard, isRecordKey]
  cases schema.catalogue.get? (schema.document.expand member.type).target with
  | none => rfl
  | some entry =>
    simp only [Option.any_some]
    split <;> rfl

theorem targets_recordLinks (schema : Schema) (record : Record) :
    (schema.recordLinks record).map Link.target = (schema.memberTargets record).eraseDups := by
  have htargets : (record.members.filterMap schema.link?).map Link.target =
      schema.memberTargets record := by
    rw [List.map_filterMap, memberTargets, ← List.filterMap_eq_filter, List.filterMap_map]
    exact congrArg (List.filterMap · _) (funext schema.map_target_link?)
  have hstart : ([] : List Link).map Link.target = ([] : List Key).eraseDups := rfl
  rw [recordLinks, Link.targets_foldl_merge hstart, htargets, List.nil_append]

/-! ### The links of a loaded schema -/

/-- Links go to records of the catalogue. -/
theorem hasRecord_of_mem_recordLinks (hload : ofDocument document typePrefix = .ok schema)
    {record : Record} {link : Link} (hlink : link ∈ schema.recordLinks record) :
    ∃ other, schema.HasRecord link.target other := by
  have htarget : link.target ∈ (schema.recordLinks record).map Link.target :=
    List.mem_map_of_mem hlink
  rw [targets_recordLinks, List.mem_eraseDups, memberTargets, List.mem_filter] at htarget
  exact (exists_hasRecord_iff hload).mpr htarget.2

/-- A link is by value when some member does not point and no alias of its type does. -/
theorem byValue_recordLinks_iff (hload : ofDocument document typePrefix = .ok schema)
    {record : Record} {link : Link} (hlink : link ∈ schema.recordLinks record) :
    link.byValue = true ↔ ∃ member ∈ record.members,
      (schema.document.expand member.type).target = link.target ∧ member.indirection = none ∧
        (schema.document.expand member.type).isDirect = true := by
  have hnodup : ((schema.recordLinks record).map Link.target).Nodup :=
    Link.nodup_targets_foldl_merge _ List.nodup_nil
  rw [Link.byValue_iff_holding hnodup hlink, holding_recordLinks_iff]
  refine exists_congr fun member ↦ and_congr_right fun _ ↦ ?_
  rw [link?_eq_some_iff hload, and_iff_right (hasRecord_of_mem_recordLinks hload hlink),
    Bool.and_eq_true, Member.isByValue, Option.isNone_iff_eq_none]

/-- The records with links are those of the catalogue, in its order. The links of a record
go to the records that its members lead to, once to each, in the order in which members
first lead there. Each is by value if and only if some member holds its target, and goes
to a record with links. -/
theorem links_told (hload : ofDocument document typePrefix = .ok schema) :
    schema.links.keys = schema.catalogue.keys.filter schema.isRecordKey ∧
    ∀ key links, schema.links.get? key = some links → ∃ record, schema.HasRecord key record ∧
      links.map Link.target = (schema.memberTargets record).eraseDups ∧
      (links.map Link.target).Nodup ∧
      ∀ link ∈ links,
        (link.byValue = true ↔ ∃ member ∈ record.members,
          (schema.document.expand member.type).target = link.target ∧
            member.indirection = none ∧
            (schema.document.expand member.type).isDirect = true) ∧
        link.target ∈ schema.links.keys := by
  refine ⟨keys_links_eq_filter hload, fun key links hlinks ↦ ?_⟩
  obtain ⟨record, hhas, rfl⟩ := (get?_links_eq_some_iff hload).mp hlinks
  refine ⟨record, hhas, schema.targets_recordLinks record,
    Link.nodup_targets_foldl_merge _ List.nodup_nil, fun link hlink ↦ ⟨?_, ?_⟩⟩
  · exact byValue_recordLinks_iff hload hlink
  · exact (mem_keys_links_iff hload).mpr (hasRecord_of_mem_recordLinks hload hlink)

/-- A record that points to another before and after it holds it through an alias, and that
leads to a third one through an alias that points. -/
def pointing : Schema where
  document := ⟨[("holder", .record ⟨[⟨"origin", "extent", some .constPointer, []⟩,
      ⟨"size", "extent alias", none, []⟩, ⟨"at", "point alias", none, []⟩,
      ⟨"count", "uint32_t", none, []⟩, ⟨"last", "extent", some .pointer, []⟩,
      ⟨"next", "holder", some .pointer, []⟩], none, none, []⟩),
    ("extent alias", .typedef { target := "extent", indirection := none, tags := [] }),
    ("point alias", .typedef { target := "point", indirection := some .pointer, tags := [] }),
    ("point", .callbackInfo ⟨[], none, none, []⟩), ("extent", .record ⟨[], none, none, []⟩)],
    by decide⟩
  catalogue := ⟨[("holder", ⟨"WGPUHolder", .record⟩),
    ("extent alias", ⟨"WGPUExtentAlias", .typedef⟩),
    ("point alias", ⟨"WGPUPointAlias", .typedef⟩), ("point", ⟨"WGPUPoint", .callbackInfo⟩),
    ("extent", ⟨"WGPUExtent", .record⟩)], by decide⟩

/-- One member that holds a record is enough, and a pointer on the way to a type counts. -/
theorem pointing_links_told :
    pointing.links.keys = ["holder", "point", "extent"] ∧
    ∃ links, pointing.links.get? "holder" = some links ∧
      links.map Link.target = ["extent", "point", "holder"] ∧
      ∀ link ∈ links, (link.byValue = true ↔ link.target = "extent") ∧
        link.target ∈ pointing.links.keys := by
  have hload : ofDocument pointing.document "WGPU" = .ok pointing := rfl
  obtain ⟨hkeys, hlinks⟩ := links_told hload
  have hsome : (pointing.links.get? "holder").isSome = true := by decide +kernel
  obtain ⟨links, hget⟩ := Option.isSome_iff_exists.mp hsome
  obtain ⟨record, ⟨node, ⟨-, hnode⟩, hrecord⟩, htargets, -, hall⟩ := hlinks "holder" links hget
  obtain rfl := Option.some.inj hnode
  obtain rfl := Option.some.inj hrecord
  have htold : links.map Link.target = ["extent", "point", "holder"] := by
    rw [htargets]
    decide +kernel
  refine ⟨?_, links, hget, htold, fun link hlink ↦ ⟨(hall link hlink).1.trans ?_,
    (hall link hlink).2⟩⟩
  · rw [hkeys]
    decide +kernel
  · have htarget : link.target ∈ ["extent", "point", "holder"] :=
      htold ▸ List.mem_map_of_mem hlink
    generalize link.target = target at htarget
    revert target
    decide +kernel

/-! ### Chains of aliases -/

/-- The name of a type leads past aliases of the document, none of them twice. If it comes
to a key that is not an alias, this is the type, and it is told whether an alias on the
way points. Otherwise it runs into a cycle, and the type is an alias, which is no record
and to which no link goes. -/
theorem alias_chains_resolved (hload : ofDocument document typePrefix = .ok schema) (type : Key) :
    (schema.document.Passes type (schema.document.expand type).through
        (schema.document.expand type).target ∧
      (schema.document.expand type).through.Nodup ∧
      (schema.document.expand type).through ⊆ schema.document.typedefKeys ∧
      (schema.document.expand type).through.length ≤ schema.document.typedefKeys.length) ∧
    (∀ target, Relation.ReflTransGen schema.document.Follows type target →
      schema.document.IsEnd target → (schema.document.expand type).target = target ∧
        ((schema.document.expand type).isDirect = true ↔
          ∀ key typedef, Relation.ReflTransGen schema.document.Follows type key →
            schema.document.get? key = some (.typedef typedef) → typedef.indirection = none)) ∧
    (schema.document.Loops type →
      (∃ typedef, schema.document.get? (schema.document.expand type).target =
        some (.typedef typedef)) ∧
      schema.isRecordKey (schema.document.expand type).target = false ∧
      (∀ member : Member, member.type = type → schema.link? member = none) ∧
      ∀ key links, schema.links.get? key = some links →
        ∀ link ∈ links, link.target ≠ (schema.document.expand type).target) ∧
    ((∃ target, Relation.ReflTransGen schema.document.Follows type target ∧
      schema.document.IsEnd target) ∨ schema.document.Loops type) := by
  have hpasses := schema.document.passes_expand type
  refine ⟨⟨hpasses, hpasses.nodup, hpasses.subset_typedefKeys,
    (hpasses.nodup.subperm hpasses.subset_typedefKeys).length_le⟩, fun target hreaches hend ↦
    ⟨Document.target_expand_of_isEnd hreaches hend,
      Document.isDirect_expand_iff_of_isEnd hreaches hend⟩, fun hloops ↦ ?_,
    schema.document.exists_isEnd_or_loops type⟩
  have hnotEnd := hloops.not_isEnd hpasses.reaches
  have hnone : ¬ ∃ record, schema.HasRecord (schema.document.expand type).target record := by
    rintro ⟨record, hhas⟩
    exact hnotEnd hhas.isEnd
  refine ⟨?_, ?_, ?_, ?_⟩
  · simpa [Document.IsEnd] using hnotEnd
  · rw [isRecordKey, Bool.eq_false_iff]
    exact fun hrecord ↦ hnone ((exists_hasRecord_iff hload).mpr hrecord)
  · rintro member rfl
    refine Option.eq_none_iff_forall_ne_some.mpr fun link hlink ↦ ?_
    obtain ⟨hrecord, htarget, -⟩ := (link?_eq_some_iff hload).mp hlink
    exact hnone (htarget ▸ hrecord)
  · intro key links hlinks link hlink htarget
    obtain ⟨record, -, rfl⟩ := (get?_links_eq_some_iff hload).mp hlinks
    exact hnone (htarget ▸ hasRecord_of_mem_recordLinks hload hlink)

/-- A record with one member whose type leads into a cycle of aliases from outside, and one
whose type leads to a record through an alias that points. -/
def circling : Schema where
  document := ⟨[("holder", .record ⟨[⟨"x", "entry", none, []⟩, ⟨"y", "far", none, []⟩],
      none, none, []⟩),
    ("entry", .typedef { target := "ping", indirection := none, tags := [] }),
    ("ping", .typedef { target := "pong", indirection := none, tags := [] }),
    ("pong", .typedef { target := "ping", indirection := none, tags := [] }),
    ("far", .typedef { target := "near", indirection := none, tags := [] }),
    ("near", .typedef { target := "holder", indirection := some .pointer, tags := [] })],
    by decide⟩
  catalogue := ⟨[("holder", ⟨"WGPUHolder", .record⟩), ("entry", ⟨"WGPUEntry", .typedef⟩),
    ("ping", ⟨"WGPUPing", .typedef⟩), ("pong", ⟨"WGPUPong", .typedef⟩),
    ("far", ⟨"WGPUFar", .typedef⟩), ("near", ⟨"WGPUNear", .typedef⟩)], by decide⟩

/-- The cycle is left where it was entered and gives no link, and the pointer is told. -/
theorem circling_chains_resolved :
    (circling.document.expand "entry").target = "ping" ∧
      (∀ member : Member, member.type = "entry" → circling.link? member = none) ∧
      (circling.document.expand "far").target = "holder" ∧
      (circling.document.expand "far").isDirect = false := by
  have hload : ofDocument circling.document "WGPU" = .ok circling := rfl
  have hloops : circling.document.Loops "entry" :=
    ⟨"ping", .single ⟨_, rfl, rfl⟩, .tail (.single ⟨_, rfl, rfl⟩) ⟨_, rfl, rfl⟩⟩
  have hend : circling.document.IsEnd "holder" := by
    intro typedef hnode
    cases hnode
  have hnear : Relation.ReflTransGen circling.document.Follows "far" "near" :=
    .single ⟨_, rfl, rfl⟩
  have hholder : Relation.ReflTransGen circling.document.Follows "far" "holder" :=
    hnear.tail ⟨_, rfl, rfl⟩
  obtain ⟨-, -, hcycle, -⟩ := alias_chains_resolved hload "entry"
  obtain ⟨-, hresolved, -, -⟩ := alias_chains_resolved hload "far"
  obtain ⟨htarget, hdirect⟩ := hresolved "holder" hholder hend
  refine ⟨by decide +kernel, (hcycle hloops).2.2.1, htarget, ?_⟩
  rw [Bool.eq_false_iff, ne_eq, hdirect]
  intro hall
  cases hall "near" _ hnear rfl

end Schema

end ApiHeader
