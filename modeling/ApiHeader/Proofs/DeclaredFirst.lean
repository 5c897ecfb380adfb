import ApiHeader.Proofs.Uses

/-!
# Names are introduced before they are used

With nothing excluded, every name that a line of a header uses is introduced by a line
in front of it, with one exception: the links of chains come after the aliases, so an
alias that names a link (`Schema.NamesLink`) stands before it. Unless some type has the
name of a link, a header is `DeclaredFirst` exactly when no alias does so
(`names_introduced_first`).
-/

set_option autoImplicit false
set_option relaxedAutoImplicit false

namespace ApiHeader

/-- A name that does not end as the names of links do is none of these. -/
theorem Direction.link_text_ne (direction : Direction) (typePrefix : String)
    {ending : String} {last : Char} (hending : ending.toList.getLast? = some last)
    (hlast : last ≠ 't') (name : String) : direction.link.text typePrefix ≠ name ++ ending := by
  intro h
  have hsame := congrArg (fun text : String ↦ text.toList.getLast?) h
  simp only [String.toList_append, List.getLast?_append, hending, Option.some_or] at hsame
  cases direction <;> simp [Direction.link, Primitive.text, hlast.symm] at hsame

namespace Schema

variable {document : Document} {typePrefix : String} {schema : Schema} {settings : Settings}
  {header : Header} {type name : String}

theorem not_excludes_of_empty (hall : settings.exclusion = .empty) {key : Key} :
    ¬ schema.Excludes settings key := by
  rintro ⟨node, -, hexcludes⟩
  have hkeeps := Settings.keeps_of_empty hall node.tags
  rw [Settings.keeps, hexcludes] at hkeeps
  cases hkeeps

/-! ### What the lines introduce -/

/-- The declarations of a type in the sections before the aliases. -/
def openingDeclarations (settings : Settings) (type : DeclaredType) : List Declaration :=
  handleDeclarations type ++ (forwardDeclarations type ++ enumerationDeclarations settings type)

/-- The items before the aliases are those of the types that are kept. -/
theorem mem_opening_iff (hok : (schema.header settings).result = .ok header) {item : Item} :
    item ∈ header.handles ++ (header.forwards ++ header.enumerations) ↔
      ∃ declared, schema.type? item.key = some declared ∧
        settings.keeps declared.node.tags = true ∧
        item.declaration ∈ openingDeclarations settings declared := by
  obtain ⟨-, -, -, -, -, hhandles, hforwards, henumerations⟩ := header_eq_ok_iff.mp hok
  rw [← hhandles, ← hforwards, ← henumerations]
  simp only [List.mem_append, mem_items_iff (schema.handles_eq_gather settings),
    mem_items_iff (schema.forwards_eq_gather settings),
    mem_items_iff (schema.enumerations_eq_gather settings), openingDeclarations, and_or_left,
    exists_or]

/-- A type that is no alias is introduced before the aliases. -/
theorem exists_mem_openingDeclarations (settings : Settings) {declared : DeclaredType}
    (hregistered : declared.node.category.isRegistered = true)
    (hother : declared.node.category.isAlias = false) :
    ∃ d ∈ openingDeclarations settings declared,
      declared.name ∈ d.introduces settings.typePrefix := by
  obtain ⟨key, name, node⟩ := declared
  cases node with
  | object object => exact ⟨.handle name, List.mem_cons_self, List.mem_cons_self⟩
  | record record => exact ⟨.forward name, List.mem_cons_self, List.mem_cons_self⟩
  | callbackInfo record => exact ⟨.forward name, List.mem_cons_self, List.mem_cons_self⟩
  | enumeration e => exact ⟨.enumeration name _, List.mem_cons_self, List.mem_cons_self⟩
  | bitmask e => exact ⟨.enumeration name _, List.mem_cons_self, List.mem_cons_self⟩
  | typedef typedef => cases hother
  | functionPointer signature => cases hother
  | callback signature => cases hother
  | function signature => cases hregistered
  | constant constant => cases hregistered
  | native tags => cases hregistered
  | other => cases hregistered

/-- Before the aliases a type has its name, or the name for sets of its bits. -/
theorem openingDeclarations_cases {declared : DeclaredType} {d : Declaration}
    (hd : d ∈ openingDeclarations settings declared) :
    d.types = [] ∧ (d.introduces settings.typePrefix = [declared.name] ∨
      d.introduces settings.typePrefix = [declared.name ++ "Flags"]) := by
  obtain ⟨key, name, node⟩ := declared
  cases node with
  | object object =>
    obtain rfl := List.mem_singleton.mp hd
    exact ⟨rfl, .inl rfl⟩
  | record record =>
    obtain rfl := List.mem_singleton.mp hd
    exact ⟨rfl, .inl rfl⟩
  | callbackInfo record =>
    obtain rfl := List.mem_singleton.mp hd
    exact ⟨rfl, .inl rfl⟩
  | enumeration e =>
    obtain rfl := List.mem_singleton.mp hd
    exact ⟨rfl, .inl rfl⟩
  | bitmask e =>
    rcases List.mem_pair.mp hd with rfl | rfl
    · exact ⟨rfl, .inl rfl⟩
    · exact ⟨rfl, .inr rfl⟩
  | _ => cases hd

theorem introduced_wordType (hname : name ∈ settings.wordTypes) (lines : List Line) :
    Introduced settings.typePrefix (settings.wordTypes.map .wordType ++ lines) name :=
  introduced_append.mpr
    (.inl ⟨.wordType name, List.mem_map_of_mem hname, List.mem_singleton_self name⟩)

theorem introduced_bool (settings : Settings) (header : Header) :
    Introduced settings.typePrefix (header.openingLines settings)
      (settings.typePrefix ++ "Bool") :=
  introduced_wordType (List.mem_cons_of_mem _ List.mem_cons_self) _

theorem introduces_of_isAliasLine {item : Item} {declared : DeclaredType}
    (hline : schema.IsAliasLine settings item) (htype : schema.type? item.key = some declared) :
    item.declaration.introduces settings.typePrefix = [declared.name] := by
  obtain ⟨other, hother, -, hline⟩ := hline
  obtain rfl := Option.some.inj (htype.symm.trans hother)
  rcases hline with ⟨_, _, -, -, hdeclaration⟩ | ⟨_, _, _, -, -, -, hdeclaration⟩
  · rw [hdeclaration, Declaration.introduces]
  · rw [hdeclaration, Declaration.introduces]

theorem structTags_of_isAliasLine {item : Item} (hline : schema.IsAliasLine settings item) :
    (Line.declaration item.declaration).structTags typePrefix = [] := by
  obtain ⟨declared, -, -, hline⟩ := hline
  rcases hline with ⟨_, _, -, -, hdeclaration⟩ | ⟨_, _, _, -, -, -, hdeclaration⟩
  · rw [hdeclaration]
    rfl
  · rw [hdeclaration]
    rfl

/-- Up to an alias the names introduced are those of word types, of types, and of sets of
bits. -/
theorem type_of_introduced (hok : (schema.header settings).result = .ok header)
    {before after : List Item} (hitems : header.aliases = before ++ after)
    (h : Introduced settings.typePrefix (header.openingLines settings ++ itemLines before) name) :
    name ∈ settings.wordTypes ∨ ∃ key declared, schema.type? key = some declared ∧
      (name = declared.name ∨ name = declared.name ++ "Flags") := by
  obtain ⟨-, hconstants, haliases, -⟩ := header_eq_ok_iff.mp hok
  rw [Header.openingLines, introduced_append, introduced_append, introduced_append,
    or_assoc, or_assoc] at h
  rcases h with hword | hconstant | hopening | halias
  · obtain ⟨_, hline, hname⟩ := hword
    obtain ⟨word, hword, rfl⟩ := List.mem_map.mp hline
    exact .inl (List.mem_singleton.mp hname ▸ hword)
  · obtain ⟨item, hitem, hname⟩ := introduced_itemLines.mp hconstant
    obtain ⟨-, _, _, _, hdeclaration⟩ := constant_of_mem_constants hconstants hitem
    rw [hdeclaration] at hname
    cases hname
  · obtain ⟨item, hitem, hname⟩ := introduced_itemLines.mp hopening
    obtain ⟨declared, htype, -, hdeclaration⟩ := (mem_opening_iff hok).mp hitem
    rcases (openingDeclarations_cases hdeclaration).2 with hown | hflags
    · rw [hown] at hname
      exact .inr ⟨_, declared, htype, .inl (List.mem_singleton.mp hname)⟩
    · rw [hflags] at hname
      exact .inr ⟨_, declared, htype, .inr (List.mem_singleton.mp hname)⟩
  · obtain ⟨item, hitem, hname⟩ := introduced_itemLines.mp halias
    have hmem : item ∈ header.aliases := hitems ▸ List.mem_append_left _ hitem
    obtain ⟨declared, htype, -⟩ := isAliasLine_of_mem_aliases haliases hmem
    rw [introduces_of_isAliasLine (isAliasLine_of_mem_aliases haliases hmem) htype] at hname
    exact .inr ⟨_, declared, htype, .inl (List.mem_singleton.mp hname)⟩

/-- Where no type has the name of a link, none is introduced up to an alias. -/
theorem not_introduced_link (hok : (schema.header settings).result = .ok header)
    (hclear : ∀ key declared (direction : Direction), schema.type? key = some declared →
      declared.name ≠ direction.link.text settings.typePrefix)
    {before after : List Item} (hitems : header.aliases = before ++ after)
    (direction : Direction) :
    ¬ Introduced settings.typePrefix (header.openingLines settings ++ itemLines before)
      (direction.link.text settings.typePrefix) := by
  intro h
  rcases type_of_introduced hok hitems h with hword | ⟨key, declared, htype, hname | hflags⟩
  · rcases List.mem_pair.mp hword with hflags | hbool
    · exact direction.link_text_ne _ rfl (by decide) _ hflags
    · exact direction.link_text_ne _ rfl (by decide) _ hbool
  · exact hclear key declared direction htype hname.symm
  · exact direction.link_text_ne _ rfl (by decide) _ hflags

/-- The links of both directions are introduced. -/
theorem introduced_link {links : List Declaration} (hok : schema.chainLinks.result = .ok links)
    (direction : Direction) :
    Introduced settings.typePrefix (links.map .declaration)
      (direction.link.text settings.typePrefix) := by
  obtain ⟨tag, -, rfl⟩ := chainLinks_eq_ok settings hok
  cases direction with
  | inward => exact ⟨_, List.mem_cons_self, List.mem_singleton_self _⟩
  | outward => exact ⟨_, List.mem_cons_of_mem _ List.mem_cons_self, List.mem_singleton_self _⟩

theorem types_of_mem_openingLines (hok : (schema.header settings).result = .ok header)
    {line : Line} (hline : line ∈ header.openingLines settings) : line.types = [] := by
  obtain ⟨-, hconstants, -⟩ := header_eq_ok_iff.mp hok
  rcases List.mem_append.mp hline with hword | hline
  · obtain ⟨word, -, rfl⟩ := List.mem_map.mp hword
    rfl
  · rcases List.mem_append.mp hline with hconstant | hline
    · obtain ⟨item, hitem, rfl⟩ := List.mem_map.mp hconstant
      obtain ⟨-, _, _, _, hdeclaration⟩ := constant_of_mem_constants hconstants hitem
      rw [Line.types, hdeclaration, Declaration.types]
    · obtain ⟨item, hitem, rfl⟩ := List.mem_map.mp hline
      obtain ⟨declared, -, -, hdeclaration⟩ := (mem_opening_iff hok).mp hitem
      exact (openingDeclarations_cases hdeclaration).1

/-- The lines before the aliases use the word type for sets of bits at most. -/
theorem introduced_before_opening (hok : (schema.header settings).result = .ok header)
    {front : List Line} {line : Line}
    (h : UsesAfter settings.typePrefix (header.openingLines settings) front line name) :
    Introduced settings.typePrefix front name := by
  have hflags : name = settings.typePrefix ++ "Flags" := by
    rcases Line.mem_uses_cases h.1 with ⟨_, -, hname⟩ | ⟨written, hwritten, -⟩
    · exact hname
    · rw [types_of_mem_openingLines hok h.mem] at hwritten
      cases hwritten
  rcases usesAfter_append.mp h with hword | ⟨between, rfl, -⟩
  · obtain ⟨word, -, rfl⟩ := List.mem_map.mp hword.mem
    cases hword.1
  · rw [hflags]
    exact introduced_wordType List.mem_cons_self between

section Header

variable (hload : ofDocument document typePrefix = .ok schema)
  (hall : settings.exclusion = .empty) (hok : (schema.header settings).result = .ok header)

include hload hall hok

theorem introduced_opening {key : Key} {declared : DeclaredType}
    (htype : schema.type? key = some declared)
    (hother : declared.node.category.isAlias = false) :
    Introduced settings.typePrefix (header.openingLines settings) declared.name := by
  obtain ⟨rfl, hdeclares⟩ := declares_of_type? htype
  have hregisters := ((declares_iff hload).mp hdeclares).2
  rw [Catalogue.registers, Bool.and_eq_true] at hregisters
  obtain ⟨d, hd, hname⟩ := exists_mem_openingDeclarations settings hregisters.1 hother
  have hitem : ⟨declared.key, d⟩ ∈ header.handles ++ (header.forwards ++ header.enumerations) :=
    (mem_opening_iff hok).mpr ⟨declared, htype, Settings.keeps_of_empty hall _, hd⟩
  rw [Header.openingLines, introduced_append, introduced_append]
  exact .inr (.inr (introduced_itemLines.mpr ⟨_, hitem, hname⟩))

theorem exists_mem_aliases {key : Key} {declared : DeclaredType}
    (htype : schema.type? key = some declared)
    (halias : declared.node.category.isAlias = true) :
    ∃ item ∈ header.aliases, item.key = key ∧ schema.IsAliasLine settings item := by
  obtain ⟨-, -, haliases, -⟩ := header_eq_ok_iff.mp hok
  obtain ⟨line, hline, hgives⟩ :=
    gives_aliases hload haliases htype (Settings.keeps_of_empty hall _) halias
  exact ⟨⟨key, line⟩, hgives.mem List.mem_cons_self, rfl, hline⟩

theorem NamesLink.exists_mem_aliases {key : Key} {direction : Direction}
    (hlink : schema.NamesLink key direction) :
    ∃ item ∈ header.aliases, item.key = key ∧ schema.IsAliasLine settings item := by
  obtain ⟨node, hdeclares, type, hmention, -⟩ := hlink
  obtain ⟨_, htype⟩ := hdeclares.type?
  exact Schema.exists_mem_aliases hload hall hok htype (isAlias_of_mem_aliasMentions hmention)

/-- After the aliases all types are introduced. -/
theorem introduced_of_type? {key : Key} {declared : DeclaredType}
    (htype : schema.type? key = some declared) :
    Introduced settings.typePrefix (header.openingLines settings ++ itemLines header.aliases)
      declared.name := by
  rw [introduced_append, introduced_itemLines]
  by_cases halias : declared.node.category.isAlias = true
  · obtain ⟨item, hitem, rfl, hline⟩ := exists_mem_aliases hload hall hok htype halias
    refine .inr ⟨item, hitem, ?_⟩
    rw [introduces_of_isAliasLine hline htype]
    exact List.mem_singleton_self _
  · exact .inl (introduced_opening hload hall hok htype (Bool.not_eq_true _ ▸ halias))

/-- What a type name means is introduced by the end of the aliases, links apart. -/
theorem introduced_of_means (hmeans : schema.Means settings type name) :
    Introduced settings.typePrefix (header.openingLines settings ++ itemLines header.aliases)
        name ∨
      ∃ direction : Direction, Primitive.ofName? type = some direction.link ∧
        name = direction.link.text settings.typePrefix := by
  rcases means_cases hload hmeans with ⟨declared, htype, rfl⟩ | rfl | hlink
  · exact .inl (introduced_of_type? hload hall hok htype)
  · exact .inl (introduced_append.mpr (.inl (introduced_bool settings header)))
  · exact .inr hlink

/-- An alias uses what is introduced in front of it, or the links that it names. -/
theorem introduced_before_alias {before after : List Item} {item : Item}
    (hitems : header.aliases = before ++ item :: after)
    (huses : name ∈ (Line.declaration item.declaration).uses settings.typePrefix) :
    Introduced settings.typePrefix (header.openingLines settings ++ itemLines before) name ∨
      ∃ direction, schema.NamesLink item.key direction ∧
        name = direction.link.text settings.typePrefix := by
  obtain ⟨-, -, haliases, -⟩ := header_eq_ok_iff.mp hok
  have hitem : item ∈ header.aliases := by
    rw [hitems]
    exact List.mem_append_right _ List.mem_cons_self
  obtain ⟨node, hdeclares, type, hmention, hmeans⟩ :=
    means_of_isAliasLine (isAliasLine_of_mem_aliases haliases hitem) huses
  rw [introduced_append, introduced_itemLines]
  rcases means_cases hload hmeans with ⟨declared, htype, rfl⟩ | rfl | ⟨direction, hlink, rfl⟩
  · by_cases halias : declared.node.category.isAlias = true
    · -- the walk has put the alias that is named in front
      have hkey : schema.isAliasKey type = true :=
        (any_category_iff hload _).mpr ⟨_, (declares_of_type? htype).2, halias⟩
      have hnames : schema.Names item.key type := names_iff.mpr ⟨node, hdeclares, hmention, hkey⟩
      have hbefore := (before_of_names hload haliases hitem (.single hnames)).2.resolve_left
        (not_excludes_of_empty hall)
      obtain ⟨earlier, hearlier, rfl⟩ := hbefore.mem_front (nodup_keys_aliases haliases) hitems
      have hmem : earlier ∈ header.aliases := by
        rw [hitems]
        exact List.mem_append_left _ hearlier
      refine .inl (.inr ⟨earlier, hearlier, ?_⟩)
      rw [introduces_of_isAliasLine (isAliasLine_of_mem_aliases haliases hmem) htype]
      exact List.mem_singleton_self _
    · exact .inl (.inl (introduced_opening hload hall hok htype (Bool.not_eq_true _ ▸ halias)))
  · exact .inl (.inl (introduced_bool settings header))
  · exact .inr ⟨direction, ⟨node, hdeclares, type, hmention, hlink⟩, rfl⟩

/-- Every use is of a name in front or of the tag of the line itself, but for the links
that aliases name. -/
theorem introduced_or_namesLink {front : List Line} {line : Line}
    (h : UsesAfter settings.typePrefix (header.lines settings) front line name) :
    (Introduced settings.typePrefix front name ∨ name ∈ line.structTags settings.typePrefix) ∨
      ∃ item ∈ header.aliases, line = .declaration item.declaration ∧
        ∃ direction, schema.NamesLink item.key direction ∧
          name = direction.link.text settings.typePrefix := by
  obtain ⟨-, -, -, hchainLinks, -⟩ := header_eq_ok_iff.mp hok
  rcases usesAfter_append.mp h with hopening | ⟨between, rfl, hrest⟩
  · exact .inl (.inl (introduced_before_opening hok hopening))
  rcases usesAfter_append.mp hrest with halias | ⟨between, rfl, hlater⟩
  · obtain ⟨before, item, after, hitems, rfl, rfl⟩ := usesAfter_itemLines halias
    rcases introduced_before_alias hload hall hok hitems h.1 with hfront | hlink
    · exact .inl (.inl hfront)
    · exact .inr ⟨item, by rw [hitems]; simp, rfl, hlink⟩
  -- by now all types are introduced, and after the links these too
  have hearlier {type : String} (hmeans : schema.Means settings type name)
      (hlinks : ∀ direction : Direction, Primitive.ofName? type = some direction.link →
        name = direction.link.text settings.typePrefix →
          Introduced settings.typePrefix between name) :
      Introduced settings.typePrefix
        (header.openingLines settings ++ (itemLines header.aliases ++ between)) name := by
    rw [← List.append_assoc, introduced_append]
    rcases introduced_of_means hload hall hok hmeans with hfront | ⟨direction, hlink, hname⟩
    · exact .inl hfront
    · exact .inr (hlinks direction hlink hname)
  rcases usesAfter_append.mp hlater with hlink | ⟨between, rfl, hclosing⟩
  · obtain ⟨link, hmem, rfl⟩ := List.mem_map.mp hlink.mem
    rcases means_of_mem_chainLinks hchainLinks hmem h.1 with htag | hmeans
    · exact .inl (.inr htag)
    · refine .inl (.inl (hearlier hmeans fun direction hprimitive ↦ ?_))
      cases direction <;> cases hprimitive
  · obtain ⟨type, hmeans⟩ := means_of_mem_closingLines hok hclosing.mem h.1
    refine .inl (.inl (hearlier hmeans fun direction _ hname ↦ ?_))
    rw [hname, introduced_append]
    exact .inl (introduced_link hchainLinks direction)

end Header

/-- With nothing excluded, the text of a header has its lines in order, and each name
that a line uses is introduced in front of it, or is the tag that a link of a chain
defines, or is that of a link, named by an alias. So names are introduced first if no
alias names a link, and only then, unless a type has the name of a link. -/
theorem names_introduced_first (hload : ofDocument document typePrefix = .ok schema)
    (hall : settings.exclusion = .empty) {text : String}
    (hok : (schema.headerText settings).result = .ok text) :
    ∃ header, (schema.header settings).result = .ok header ∧ header.text settings = text ∧
      Interleaved ((header.lines settings).map (Line.text settings)) text ∧
      (∀ front line name,
        UsesAfter settings.typePrefix (header.lines settings) front line name →
          (Introduced settings.typePrefix front name ∨ name ∈ line.structTags settings.typePrefix) ∨
            ∃ item ∈ header.aliases, line = .declaration item.declaration ∧
              ∃ direction, schema.NamesLink item.key direction ∧
                name = direction.link.text settings.typePrefix) ∧
      ((∀ key direction, ¬ schema.NamesLink key direction) →
        DeclaredFirst settings.typePrefix (header.lines settings)) ∧
      ((∀ key declared (direction : Direction), schema.type? key = some declared →
          declared.name ≠ direction.link.text settings.typePrefix) →
        DeclaredFirst settings.typePrefix (header.lines settings) →
          ∀ key direction, ¬ schema.NamesLink key direction) := by
  obtain ⟨header, hheader, rfl⟩ := headerText_eq_ok_iff.mp hok
  refine ⟨header, hheader, rfl, header.interleaved_lines settings, ?_, ?_, ?_⟩
  · intro front line name huses
    exact introduced_or_namesLink hload hall hheader huses
  · intro hnone front line name huses
    rcases introduced_or_namesLink hload hall hheader huses with
      hfirst | ⟨_, -, -, direction, hlink, -⟩
    · exact hfirst
    · exact absurd hlink (hnone _ direction)
  · intro hclear hfirst key direction hlink
    obtain ⟨item, hitem, rfl, hline⟩ := hlink.exists_mem_aliases hload hall hheader
    obtain ⟨before, after, hitems⟩ := List.append_of_mem hitem
    have huses := hlink.mem_uses hall hline
    have hafter : UsesAfter settings.typePrefix (header.lines settings)
        (header.openingLines settings ++ itemLines before) (.declaration item.declaration)
        (direction.link.text settings.typePrefix) := by
      refine usesAfter_append.mpr (.inr ⟨itemLines before, rfl, usesAfter_append.mpr (.inl ?_)⟩)
      exact ⟨huses, itemLines after, by rw [hitems, itemLines_append]; rfl⟩
    rcases hfirst _ _ _ hafter with hfront | htag
    · exact not_introduced_link hheader hclear hitems direction hfront
    · rw [structTags_of_isAliasLine hline] at htag
      cases htag

/-- A record that starts a chain and holds a callback, and the callback points to it. -/
def chained : Schema where
  document := ⟨[("options", .record ⟨[⟨"done", "done", none, []⟩], some .inward, none, []⟩),
    ("done", .callback ⟨none, [⟨"success", "bool", none, []⟩,
      ⟨"options", "options", some .constPointer, []⟩], []⟩)], by decide⟩
  catalogue := ⟨[("options", ⟨"WGPUOptions", .record⟩), ("done", ⟨"WGPUDone", .callback⟩)],
    by decide⟩

/-- The record is introduced for the callback before it has members of its type. -/
theorem chained_introduced_first :
    ∃ header, (chained.header .standard).result = .ok header ∧
      DeclaredFirst "WGPU" (header.lines .standard) := by
  have hload : ofDocument chained.document "WGPU" = .ok chained := rfl
  have hwritten : (chained.headerText .standard).result.isOk = true := by decide +kernel
  obtain ⟨text, hok⟩ := exists_ok_of_isOk hwritten
  obtain ⟨header, hheader, -, -, -, hfirst, -⟩ := names_introduced_first hload rfl hok
  refine ⟨header, hheader, hfirst ?_⟩
  rintro key direction ⟨node, hdeclares, type, hmention, hprimitive⟩
  have hmem := Table.get?_eq_some_iff.mp hdeclares.2
  rcases List.mem_pair.mp hmem with hoptions | hdone
  · rw [(Prod.mk.inj hoptions).2] at hmention
    cases hmention
  · rw [(Prod.mk.inj hdone).2] at hmention
    rcases List.mem_pair.mp hmention with rfl | rfl
    · cases direction <;> cases hprimitive
    · cases direction <;> cases hprimitive

/-- A callback that takes a pointer to a link of a chain. -/
def linking : Schema where
  document := ⟨[("done", .callback ⟨none, [⟨"next", "chained struct", some .constPointer, []⟩],
    []⟩)], by decide⟩
  catalogue := ⟨[("done", ⟨"WGPUDone", .callback⟩)], by decide⟩

/-- The callback stands before the link that it names. -/
theorem linking_not_introduced_first : ofDocument linking.document "WGPU" = .ok linking ∧
    ∃ header, (linking.header .standard).result = .ok header ∧
      ¬ DeclaredFirst "WGPU" (header.lines .standard) := by
  refine ⟨rfl, ?_⟩
  have hwritten : (linking.header .standard).result.isOk = true := by decide +kernel
  obtain ⟨header, hheader⟩ := exists_ok_of_isOk hwritten
  refine ⟨header, hheader, fun hfirst ↦ ?_⟩
  have hlines : (linking.header .standard).result.map (Header.lines .standard) =
      .ok [.wordType "WGPUFlags", .wordType "WGPUBool",
        .declaration (.functionPointer "WGPUDone" ⟨.primitive .void, none⟩
          [⟨⟨.primitive .chainedStruct, some .constPointer⟩, "next"⟩]),
        .declaration (.chainLink .inward (.primitive .uint32)),
        .declaration (.chainLink .outward (.primitive .uint32))] := by
    decide +kernel
  rw [hheader] at hlines
  rw [Except.ok.inj hlines] at hfirst
  have huses : "WGPUChainedStruct" ∈ (Line.declaration
      (.functionPointer "WGPUDone" ⟨.primitive .void, none⟩
        [⟨⟨.primitive .chainedStruct, some .constPointer⟩, "next"⟩])).uses "WGPU" := by
    decide
  rcases hfirst [.wordType "WGPUFlags", .wordType "WGPUBool"] _ _ ⟨huses, _, rfl⟩
    with hfront | htag
  · exact absurd hfront (by decide)
  · cases htag

end Schema

end ApiHeader
