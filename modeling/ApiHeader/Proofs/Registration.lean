import ApiHeader.Proofs.Loading

/-!
# Which documents can be loaded

Two keys have the same name under a type prefix exactly when they are spelled alike, so
the prefix has no part in whether a document has a catalogue. `Catalogue.respelled?`
finds the first key that is spelled as an earlier one; `Catalogue.map_entries_ofDocument`
says what loading makes of it, for every prefix. A document can be loaded exactly when
no node has a clash and no two registered keys are spelled alike
(`Schema.exists_ofDocument_eq_ok_iff`). `Catalogue.distinct_names_registered` says what
is in a catalogue, and which two keys are told when there is none.
-/

set_option autoImplicit false
set_option relaxedAutoImplicit false

namespace ApiHeader

theorem typeName_eq_iff {typePrefix : String} {first second : Key} :
    typeName typePrefix first = typeName typePrefix second ↔
      Text.pascalCase first = Text.pascalCase second := by
  rw [typeName, typeName, String.append_right_inj]

namespace Catalogue

/-- The first key that is spelled as an earlier one, behind that one. -/
def respelled? (seen : List Key) : List Key → Option (Key × Key)
  | [] => none
  | key :: keys =>
    match seen.find? fun earlier ↦ Text.pascalCase earlier = Text.pascalCase key with
    | some earlier => some (earlier, key)
    | none => respelled? (seen ++ [key]) keys

/-- A key that is spelled as none of those seen can be seen next. -/
theorem nodup_concat_of_find? {seen : List Key} {key : Key}
    (hseen : (seen.map Text.pascalCase).Nodup)
    (hfind : seen.find? (fun earlier ↦ Text.pascalCase earlier = Text.pascalCase key) = none) :
    ((seen ++ [key]).map Text.pascalCase).Nodup := by
  rw [List.map_append, List.nodup_append]
  refine ⟨hseen, List.nodup_singleton _, ?_⟩
  intro first hfirst second hsecond heq
  obtain ⟨earlier, hearlier, rfl⟩ := List.mem_map.mp hfirst
  rw [List.map_singleton, List.mem_singleton] at hsecond
  exact List.find?_eq_none.mp hfind earlier hearlier (decide_eq_true (heq.trans hsecond))

theorem respelled?_eq_none_iff {seen keys : List Key} (hseen : (seen.map Text.pascalCase).Nodup) :
    respelled? seen keys = none ↔ ((seen ++ keys).map Text.pascalCase).Nodup := by
  induction keys generalizing seen with
  | nil => simpa [respelled?] using hseen
  | cons key keys ih =>
    rw [respelled?]
    cases hfind : seen.find? fun earlier ↦ Text.pascalCase earlier = Text.pascalCase key with
    | some earlier =>
      have hspelled := List.find?_some hfind
      rw [decide_eq_true_eq] at hspelled
      simp only [reduceCtorEq, false_iff]
      intro hnodup
      rw [List.map_append] at hnodup
      exact List.disjoint_of_nodup_append hnodup
        (List.mem_map_of_mem (List.mem_of_find?_eq_some hfind)) (hspelled ▸ List.mem_cons_self)
    | none => rw [ih (nodup_concat_of_find? hseen hfind), List.append_assoc, List.singleton_append]

/-- A key that is found is the first that is spelled as one before it, and it is found
with that one. -/
theorem exists_eq_append_of_respelled? {seen keys : List Key} {first second : Key}
    (hseen : (seen.map Text.pascalCase).Nodup)
    (h : respelled? seen keys = some (first, second)) :
    ∃ front back, keys = front ++ second :: back ∧
      ((seen ++ front).map Text.pascalCase).Nodup ∧ first ∈ seen ++ front ∧
        Text.pascalCase first = Text.pascalCase second := by
  induction keys generalizing seen with
  | nil => cases h
  | cons key keys ih =>
    rw [respelled?] at h
    cases hfind : seen.find? fun earlier ↦ Text.pascalCase earlier = Text.pascalCase key with
    | some earlier =>
      rw [hfind] at h
      obtain ⟨rfl, rfl⟩ := Prod.mk.inj (Option.some.inj h)
      have hspelled := List.find?_some hfind
      rw [decide_eq_true_eq] at hspelled
      refine ⟨[], keys, rfl, ?_, ?_, hspelled⟩
      · rwa [List.append_nil]
      · rw [List.append_nil]
        exact List.mem_of_find?_eq_some hfind
    | none =>
      rw [hfind] at h
      obtain ⟨front, back, rfl, hnodup, hfirst, hspelled⟩ :=
        ih (nodup_concat_of_find? hseen hfind) h
      rw [List.append_assoc, List.singleton_append] at hnodup hfirst
      exact ⟨key :: front, back, rfl, hnodup, hfirst, hspelled⟩

/-- A name is taken by a key that is spelled alike. -/
theorem keyOf?_typeName {typePrefix : String} {catalogue : Catalogue} {seen : List (Key × Node)}
    (hentries : catalogue.entries = seen.map (entryOf typePrefix)) (key : Key) :
    catalogue.keyOf? (typeName typePrefix key) =
      (seen.map Prod.fst).find? fun earlier ↦ Text.pascalCase earlier = Text.pascalCase key := by
  rw [keyOf?, hentries, List.find?_map, List.find?_map, Option.map_map]
  simp only [Function.comp_def, entryOf, typeName_eq_iff]

/-- What registering nodes leads to, after those seen: the entries of all of them, or
the first two keys that are spelled alike, with the name of both. -/
theorem map_entries_addNodes {typePrefix : String} {catalogue : Catalogue}
    {seen nodes : List (Key × Node)} (hentries : catalogue.entries = seen.map (entryOf typePrefix))
    (hnodup : ((seen ++ nodes).map Prod.fst).Nodup) :
    (addNodes typePrefix catalogue nodes).map Table.entries =
      (respelled? (seen.map Prod.fst) ((registered nodes).map Prod.fst)).elim
        (.ok ((seen ++ registered nodes).map (entryOf typePrefix)))
        fun alike ↦ .error ⟨typeName typePrefix alike.2, alike.1, alike.2⟩ := by
  induction nodes generalizing catalogue seen with
  | nil => simp [addNodes, registered, respelled?, Except.map, hentries]
  | cons declared rest ih =>
    obtain ⟨key, node⟩ := declared
    rw [addNodes]
    by_cases hreg : registers key node = true
    · have hregistered : registered ((key, node) :: rest) = (key, node) :: registered rest := by
        simp [registered, hreg]
      rw [if_pos hreg, hregistered, List.map_cons, respelled?]
      simp only [keyOf?_typeName hentries]
      cases (seen.map Prod.fst).find? fun earlier ↦
          Text.pascalCase earlier = Text.pascalCase key with
      | some earlier => rfl
      | none =>
        have hkey : key ∉ catalogue.entries.map Prod.fst := by
          rw [hentries, List.map_map]
          intro hmem
          rw [List.map_append] at hnodup
          exact List.disjoint_of_nodup_append hnodup hmem List.mem_cons_self
        have hinsert : (catalogue.insert key ⟨typeName typePrefix key, node.category⟩).entries =
            (seen ++ [(key, node)]).map (entryOf typePrefix) := by
          rw [List.map_append, ← hentries]
          exact Table.write_of_notMem hkey _
        have hstep := ih hinsert (by simpa using hnodup)
        simpa using hstep
    · have hregistered : registered ((key, node) :: rest) = registered rest := by
        simp [registered, hreg]
      rw [if_neg hreg, hregistered]
      refine ih hentries (hnodup.sublist ?_)
      exact ((List.sublist_cons_self _ _).append_left _).map _

/-- Loading a document finds the first two registered keys that are spelled alike, and
no prefix tells them apart. -/
theorem map_entries_ofDocument (document : Document) (typePrefix : String) :
    (ofDocument document typePrefix).map Table.entries =
      (respelled? [] ((registered document.entries).map Prod.fst)).elim
        (.ok ((registered document.entries).map (entryOf typePrefix)))
        fun alike ↦ .error ⟨typeName typePrefix alike.2, alike.1, alike.2⟩ := by
  have hempty : (Table.empty : Catalogue).entries = [].map (entryOf typePrefix) := rfl
  exact map_entries_addNodes hempty document.nodup

/-- Two keys are spelled alike and there is a catalogue under no prefix, or no two are and
there is one under every prefix. -/
theorem ofDocument_cases (document : Document) :
    (∃ first second, respelled? [] ((registered document.entries).map Prod.fst) =
        some (first, second) ∧ ∀ typePrefix, ofDocument document typePrefix =
          .error ⟨typeName typePrefix second, first, second⟩) ∨
      (respelled? [] ((registered document.entries).map Prod.fst) = none ∧
        ∀ typePrefix, ∃ catalogue, ofDocument document typePrefix = .ok catalogue) := by
  have hentries := map_entries_ofDocument document
  cases halike : respelled? [] ((registered document.entries).map Prod.fst) with
  | some alike =>
    refine .inl ⟨alike.1, alike.2, rfl, fun typePrefix ↦ ?_⟩
    have hprefix := hentries typePrefix
    rw [halike] at hprefix
    cases hresult : ofDocument document typePrefix with
    | ok catalogue =>
      rw [hresult] at hprefix
      cases hprefix
    | error e =>
      rw [hresult] at hprefix
      exact congrArg Except.error (Except.error.inj hprefix)
  | none =>
    refine .inr ⟨rfl, fun typePrefix ↦ ?_⟩
    have hprefix := hentries typePrefix
    rw [halike] at hprefix
    cases hresult : ofDocument document typePrefix with
    | ok catalogue => exact ⟨catalogue, rfl⟩
    | error e =>
      rw [hresult] at hprefix
      cases hprefix

theorem exists_ofDocument_eq_ok_iff {document : Document} {typePrefix : String} :
    (∃ catalogue, ofDocument document typePrefix = .ok catalogue) ↔
      ((registered document.entries).map fun declared ↦ Text.pascalCase declared.1).Nodup := by
  have hnone : respelled? [] ((registered document.entries).map Prod.fst) = none ↔
      ((registered document.entries).map fun declared ↦ Text.pascalCase declared.1).Nodup := by
    have hstart : (([] : List Key).map Text.pascalCase).Nodup := List.nodup_nil
    rw [respelled?_eq_none_iff hstart, List.nil_append, List.map_map]
    rfl
  rw [← hnone]
  obtain ⟨first, second, halike, hnames⟩ | ⟨halike, hcatalogues⟩ := ofDocument_cases document
  · rw [halike, hnames typePrefix]
    simp
  · exact iff_of_true (hcatalogues typePrefix) halike

/-- Of the registered nodes of a list, the error tells the first that has the name of an
earlier one, and this one, which is the only such. -/
def TellsFirst (typePrefix : String) (nodes : List (Key × Node)) (e : SameName) : Prop :=
  ∃ front node back, nodes = front ++ (e.second, node) :: back ∧
    registers e.second node = true ∧ typeName typePrefix e.second = e.name ∧
    ((registered front).map fun declared ↦ typeName typePrefix declared.1).Nodup ∧
    e.first ∈ (registered front).map Prod.fst ∧
    ∀ earlier ∈ (registered front).map Prod.fst,
      typeName typePrefix earlier = e.name ↔ earlier = e.first

theorem nodup_typeName_iff (typePrefix : String) (nodes : List (Key × Node)) :
    (nodes.map fun declared ↦ typeName typePrefix declared.1).Nodup ↔
      (nodes.map fun declared ↦ Text.pascalCase declared.1).Nodup := by
  have hmap : (nodes.map fun declared ↦ typeName typePrefix declared.1) =
      (nodes.map fun declared ↦ Text.pascalCase declared.1).map (typePrefix ++ ·) := by
    rw [List.map_map]
    rfl
  rw [hmap, List.nodup_map_iff fun first second h ↦ (String.append_right_inj _).mp h]

theorem tellsFirst_of_respelled? {typePrefix : String} {nodes : List (Key × Node)}
    {first second : Key}
    (h : respelled? [] ((registered nodes).map Prod.fst) = some (first, second)) :
    TellsFirst typePrefix nodes ⟨typeName typePrefix second, first, second⟩ := by
  have hstart : (([] : List Key).map Text.pascalCase).Nodup := List.nodup_nil
  obtain ⟨keys, rest, hkeys, hnodup, hfirst, hspelled⟩ := exists_eq_append_of_respelled? hstart h
  rw [List.nil_append] at hnodup hfirst
  -- the split of the registered keys is one of the nodes
  obtain ⟨before, others, hregistered, rfl, hothers⟩ := List.map_eq_append_iff.mp hkeys
  obtain ⟨⟨_, node⟩, after, rfl, rfl, -⟩ := List.map_eq_cons_iff.mp hothers
  obtain ⟨front, middle, rfl, hfront, hmiddle⟩ := List.filter_eq_append_iff.mp hregistered
  obtain ⟨skipped, back, rfl, hskipped, hregisters, -⟩ := List.filter_eq_cons_iff.mp hmiddle
  have hbefore : registered (front ++ skipped) = before := by
    rw [registered, List.filter_append, hfront, List.filter_eq_nil_iff.mpr hskipped,
      List.append_nil]
  refine ⟨front ++ skipped, node, back, by rw [List.append_assoc], hregisters, rfl, ?_, ?_, ?_⟩
  · rw [nodup_typeName_iff, hbefore]
    rwa [List.map_map] at hnodup
  · rwa [hbefore]
  · intro earlier hearlier
    rw [hbefore] at hearlier
    rw [typeName_eq_iff, ← hspelled]
    exact ⟨List.inj_on_of_nodup_map hnodup hearlier hfirst, fun h ↦ h ▸ rfl⟩

/-- There is a catalogue exactly when the registered nodes have distinct names. It has
their keys in the order of the document, each once, with its name and the category of its
node, and a name tells its key. If there is no catalogue, the error tells the first two
nodes with the same name. -/
theorem distinct_names_registered (document : Document) (typePrefix : String) :
    ((∃ catalogue, ofDocument document typePrefix = .ok catalogue) ↔
      ((registered document.entries).map fun declared ↦
        typeName typePrefix declared.1).Nodup) ∧
    (∀ catalogue, ofDocument document typePrefix = .ok catalogue →
      catalogue.keys = (registered document.entries).map Prod.fst ∧ catalogue.keys.Nodup ∧
      (∀ key ∈ catalogue.keys, ∃ node, document.get? key = some node ∧
        registers key node = true ∧
          catalogue.get? key = some ⟨typeName typePrefix key, node.category⟩) ∧
      ∀ key entry other rest, catalogue.get? key = some entry →
        catalogue.get? other = some rest → entry.name = rest.name → key = other) ∧
    ∀ e, ofDocument document typePrefix = .error e →
      TellsFirst typePrefix document.entries e := by
  have hiff : (∃ catalogue, ofDocument document typePrefix = .ok catalogue) ↔
      ((registered document.entries).map fun declared ↦ typeName typePrefix declared.1).Nodup := by
    rw [nodup_typeName_iff]
    exact exists_ofDocument_eq_ok_iff
  refine ⟨hiff, fun catalogue hok ↦ ?_, fun e herror ↦ ?_⟩
  · have hentries := entries_ofDocument hok
    have hget {key : Key} {entry : CatalogueEntry} (h : catalogue.get? key = some entry) :
        ∃ declared ∈ registered document.entries, entryOf typePrefix declared = (key, entry) := by
      rw [Table.get?_eq_some_iff, hentries] at h
      exact List.mem_map.mp h
    have hkeys : catalogue.keys = (registered document.entries).map Prod.fst := by
      rw [Table.keys, hentries, List.map_map]
      rfl
    refine ⟨hkeys, catalogue.nodup, fun key hkey ↦ ?_, fun key entry other rest hentry hrest h ↦ ?_⟩
    · rw [hkeys] at hkey
      obtain ⟨⟨_, node⟩, hdeclared, rfl⟩ := List.mem_map.mp hkey
      obtain ⟨hmem, hregisters⟩ := List.mem_filter.mp hdeclared
      refine ⟨node, Table.get?_eq_some_iff.mpr hmem, hregisters, ?_⟩
      rw [Table.get?_eq_some_iff, hentries]
      exact List.mem_map_of_mem hdeclared
    · obtain ⟨first, hfirst, hentry⟩ := hget hentry
      obtain ⟨second, hsecond, hrest⟩ := hget hrest
      obtain ⟨rfl, rfl⟩ := Prod.mk.inj hentry
      obtain ⟨rfl, rfl⟩ := Prod.mk.inj hrest
      exact congrArg Prod.fst (List.inj_on_of_nodup_map (hiff.mp ⟨_, hok⟩) hfirst hsecond h)
  · obtain ⟨first, second, halike, hnames⟩ | ⟨-, hcatalogues⟩ := ofDocument_cases document
    · rw [hnames typePrefix] at herror
      exact Except.error.inj herror ▸ tellsFirst_of_respelled? halike
    · obtain ⟨catalogue, hok⟩ := hcatalogues typePrefix
      rw [hok] at herror
      cases herror

/-- Two types with the same name. The key in front is that of a primitive, and the one
between them that of a function. -/
def doubled : Document :=
  ⟨[("string", .object ⟨[], []⟩), ("render pass", .object ⟨[], []⟩),
    ("Render Pass", .function ⟨none, [], []⟩),
    ("render  pass", .record ⟨[], none, none, []⟩)], by decide⟩

/-- The function does not count, and without the last node there is a catalogue. -/
theorem doubled_told :
    TellsFirst "WGPU" doubled.entries ⟨"WGPURenderPass", "render pass", "render  pass"⟩ ∧
      ∃ catalogue, ofDocument ⟨doubled.entries.dropLast, by decide⟩ "WGPU" = .ok catalogue ∧
        catalogue.keys = ["render pass"] := by
  have herror : ofDocument doubled "WGPU" =
      .error ⟨"WGPURenderPass", "render pass", "render  pass"⟩ := rfl
  obtain ⟨hiff, hcatalogue, -⟩ :=
    distinct_names_registered ⟨doubled.entries.dropLast, by decide⟩ "WGPU"
  obtain ⟨catalogue, hok⟩ := hiff.mpr (by decide)
  obtain ⟨hkeys, -⟩ := hcatalogue catalogue hok
  exact ⟨(distinct_names_registered doubled "WGPU").2.2 _ herror, catalogue, hok, hkeys⟩

end Catalogue

namespace Schema

/-- A document can be loaded when no node has a clash and no two registered keys are
spelled alike, whatever the prefix and the order of the nodes. -/
theorem exists_ofDocument_eq_ok_iff {document : Document} {typePrefix : String} :
    (∃ schema, ofDocument document typePrefix = .ok schema) ↔
      (∀ declared ∈ document.entries, Clash.node? declared.1 declared.2 = none) ∧
        ((Catalogue.registered document.entries).map fun declared ↦
          Text.pascalCase declared.1).Nodup := by
  have hcatalogue : (∃ catalogue, Catalogue.ofDocument document typePrefix = .ok catalogue) ↔ _ :=
    Catalogue.exists_ofDocument_eq_ok_iff
  have hclash : document.clash? = none ↔
      ∀ declared ∈ document.entries, Clash.node? declared.1 declared.2 = none :=
    List.findSome?_eq_none_iff
  rw [← hclash, ← hcatalogue]
  constructor
  · rintro ⟨schema, hload⟩
    obtain ⟨hnone, -, hcatalogue⟩ := ofDocument_eq_ok_iff.mp hload
    exact ⟨hnone, schema.catalogue, hcatalogue⟩
  · rintro ⟨hnone, catalogue, hcatalogue⟩
    exact ⟨⟨document, catalogue⟩, ofDocument_eq_ok_iff.mpr ⟨hnone, rfl, hcatalogue⟩⟩

end Schema

end ApiHeader
