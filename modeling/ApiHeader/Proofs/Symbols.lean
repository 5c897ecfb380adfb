import ApiHeader.Proofs.Blocks
import ApiHeader.Proofs.Casing
import ApiHeader.Proofs.Success

/-!
# Symbols and macros

A header declares a function for each function of the document and for each method of its
objects, and a macro for each constant, if they are kept. The symbol of a function is
spelled from a phrase: a key, or the key of an object and the name of a method
(`Schema.phrases`). Loading compares the methods of one object with each other, and no
other symbols or macros. So the functions of two nodes can have one symbol, and so can
the macros of two constants; `symbols_distinct_iff` says when.
-/

set_option autoImplicit false
set_option relaxedAutoImplicit false

namespace ApiHeader

/-- The name of the macro that a declaration defines. -/
def Declaration.macroName? : Declaration → Option String
  | .constant name _ _ => some name
  | _ => none

namespace Header

/-- The symbols of the functions that a header declares, in order. -/
def symbols (settings : Settings) (header : Header) : List String :=
  header.prototypes.map fun prototype ↦ settings.functionPrefix ++ prototype.stem

/-- The names of the macros that a header defines for constants, in order. -/
def macroNames (header : Header) : List String :=
  header.constants.filterMap fun item ↦ item.declaration.macroName?

end Header

/-- What each result has in common with its source, the results have in common with the
sources. -/
theorem map_eq_map_of_mapM {α β γ : Type} {f : α → Except HeaderError β} {g : β → γ} {h : α → γ}
    (hf : ∀ a b, f a = .ok b → g b = h a) {as : List α} {bs : List β}
    (hok : as.mapM f = .ok bs) : bs.map g = as.map h := by
  have hsame : List.Forall₂ (· = ·) (as.map h) (bs.map g) := by
    rw [List.forall₂_map_left_iff, List.forall₂_map_right_iff]
    exact (mapM_eq_ok_iff.mp hok).imp fun a b hb ↦ (hf a b hb).symm
  rw [List.forall₂_eq_eq_eq] at hsame
  exact hsame.symm

/-- Where the entries of one key are told apart by their spelling, names that begin alike
are distinct exactly if no two keys share a spelling. -/
theorem nodup_map_append_iff {α : Type} {entries : List (Key × α)} {spell : Key × α → String}
    (lead : String) (hnodup : entries.Nodup)
    (htold : ∀ first ∈ entries, ∀ second ∈ entries, first.1 = second.1 →
      spell first = spell second → first = second) :
    (entries.map fun entry ↦ lead ++ spell entry).Nodup ↔
      ∀ first ∈ entries, ∀ second ∈ entries, spell first = spell second →
        first.1 = second.1 := by
  rw [List.nodup_map_iff_inj_on hnodup]
  simp only [String.append_right_inj]
  constructor
  · intro hinj first hfirst second hsecond h
    rw [hinj first hfirst second hsecond h]
  · intro hkeys first hfirst second hsecond h
    exact htold first hfirst second hsecond (hkeys first hfirst second hsecond h) h

namespace Schema

variable {document : Document} {typePrefix : String} {schema : Schema} {settings : Settings}
  {header : Header}

/-- The phrases that the functions of a header are spelled from, each with the key of its
node. -/
def phrases (schema : Schema) (settings : Settings) : List (Key × String) :=
  (schema.keptFunctions settings).map (fun declared ↦ (declared.1, declared.1)) ++
    (schema.keptObjects settings).flatMap fun declared ↦
      (declared.2.methods.filter fun method ↦ settings.keeps method.tags).map fun method ↦
        (declared.1, declared.1 ++ " " ++ method.name)

/-! ### Phrases -/

theorem mem_phrases_iff {key : Key} {phrase : String} :
    (key, phrase) ∈ schema.phrases settings ↔
      (phrase = key ∧ ∃ signature, schema.document.get? key = some (.function signature) ∧
        settings.keeps signature.tags = true) ∨
      ∃ object method, schema.document.get? key = some (.object object) ∧
        settings.keeps object.tags = true ∧ method ∈ object.methods ∧
        settings.keeps method.tags = true ∧ phrase = key ++ " " ++ method.name := by
  simp only [phrases, List.mem_append, List.mem_map, List.mem_flatMap, List.mem_filter, Prod.exists,
    Prod.mk.injEq, mem_keptFunctions_iff, mem_keptObjects_iff]
  constructor
  · rintro (⟨key, signature, ⟨hnode, hkeeps⟩, rfl, rfl⟩ |
      ⟨key, object, ⟨hnode, hkeeps⟩, method, ⟨hmethod, hkept⟩, rfl, rfl⟩)
    · exact .inl ⟨rfl, signature, hnode, hkeeps⟩
    · exact .inr ⟨object, method, hnode, hkeeps, hmethod, hkept, rfl⟩
  · rintro (⟨rfl, signature, hnode, hkeeps⟩ |
      ⟨object, method, hnode, hkeeps, hmethod, hkept, rfl⟩)
    · exact .inl ⟨_, signature, ⟨hnode, hkeeps⟩, rfl, rfl⟩
    · exact .inr ⟨_, object, ⟨hnode, hkeeps⟩, method, ⟨hmethod, hkept⟩, rfl, rfl⟩

/-- The phrases of one node are told apart by their spelling. -/
theorem phrase_eq_of_pascalCase_eq (hload : ofDocument document typePrefix = .ok schema) {key : Key}
    {first second : String} (hfirst : (key, first) ∈ schema.phrases settings)
    (hsecond : (key, second) ∈ schema.phrases settings)
    (h : Text.pascalCase first = Text.pascalCase second) : first = second := by
  rcases mem_phrases_iff.mp hfirst with
    ⟨rfl, signature, hnode, -⟩ | ⟨object, method, hnode, -, hmethod, -, rfl⟩
  · rcases mem_phrases_iff.mp hsecond with ⟨rfl, -⟩ | ⟨object, _, hother, -⟩
    · rfl
    · rw [hnode] at hother
      cases hother
  · rcases mem_phrases_iff.mp hsecond with
      ⟨rfl, _, hother, -⟩ | ⟨other, rest, hother, -, hrest, -, rfl⟩
    · rw [hnode] at hother
      cases hother
    · rw [hnode] at hother
      obtain rfl : object = other := by simpa using hother
      rw [Text.pascalCase_append_space, Text.pascalCase_append_space,
        String.append_right_inj] at h
      rw [method_eq_of_pascalCase_eq hload hnode hmethod hrest h]

/-- The nodes that are picked from those that are kept have distinct keys. -/
theorem nodup_fst_filterMap_keptNodes {α : Type} {select : Key × Node → Option (Key × α)}
    (hselect : ∀ declared picked, select declared = some picked → picked.1 = declared.1) :
    (((schema.keptNodes settings).filterMap select).map Prod.fst).Nodup := by
  have hkept : (schema.keptNodes settings).Pairwise fun first second ↦ first.1 ≠ second.1 :=
    (List.pairwise_map.mp schema.document.nodup).filter _
  refine List.pairwise_map.mpr (hkept.filterMap select ?_)
  intro first second hne a ha b hb
  rwa [hselect first a ha, hselect second b hb]

theorem nodup_keptFunctions (schema : Schema) (settings : Settings) :
    ((schema.keptFunctions settings).map Prod.fst).Nodup :=
  nodup_fst_filterMap_keptNodes fun ⟨_, node⟩ picked h ↦ by
    cases node <;> cases h
    rfl

theorem nodup_keptObjects (schema : Schema) (settings : Settings) :
    ((schema.keptObjects settings).map Prod.fst).Nodup :=
  nodup_fst_filterMap_keptNodes fun ⟨_, node⟩ picked h ↦ by
    cases node <;> cases h
    rfl

theorem nodup_keptConstants (schema : Schema) (settings : Settings) :
    ((schema.keptConstants settings).map Prod.fst).Nodup :=
  nodup_fst_filterMap_keptNodes fun ⟨_, node⟩ picked h ↦ by
    cases node <;> cases h
    rfl

/-- No phrase comes twice from one node. -/
theorem nodup_phrases (hload : ofDocument document typePrefix = .ok schema)
    (settings : Settings) : (schema.phrases settings).Nodup := by
  refine List.nodup_append'.mpr ⟨?_, List.nodup_flatMap.mpr ⟨?_, ?_⟩, ?_⟩
  · have hpairs := (schema.nodup_keptFunctions settings).map (f := fun key ↦ (key, key))
      fun first second h ↦ (Prod.mk.inj h).1
    rwa [List.map_map] at hpairs
  · rintro ⟨key, object⟩ hobject
    obtain ⟨hnode, -⟩ := mem_keptObjects_iff.mp hobject
    have hmethods := (List.Nodup.of_map _ (nodup_methods hload hnode)).filter
      fun method ↦ settings.keeps method.tags
    refine hmethods.map_on fun first hfirst second hsecond h ↦ ?_
    have hname : first.name = second.name := (String.append_right_inj _).mp (Prod.mk.inj h).2
    exact method_eq_of_pascalCase_eq hload hnode (List.mem_filter.mp hfirst).1
      (List.mem_filter.mp hsecond).1 (congrArg Text.pascalCase hname)
  · refine (List.pairwise_map.mp (schema.nodup_keptObjects settings)).imp ?_
    intro first second hkeys phrase hfirst hsecond
    obtain ⟨_, -, rfl⟩ := List.mem_map.mp hfirst
    obtain ⟨_, -, hphrase⟩ := List.mem_map.mp hsecond
    exact hkeys (Prod.mk.inj hphrase).1.symm
  · -- no node is both a function and an object
    intro phrase hfunction hmethod
    obtain ⟨⟨key, signature⟩, hkept, rfl⟩ := List.mem_map.mp hfunction
    obtain ⟨⟨other, object⟩, hobject, hmethod⟩ := List.mem_flatMap.mp hmethod
    obtain ⟨_, -, hphrase⟩ := List.mem_map.mp hmethod
    obtain rfl : other = key := (Prod.mk.inj hphrase).1
    have hnode := (mem_keptFunctions_iff.mp hkept).1
    rw [(mem_keptObjects_iff.mp hobject).1] at hnode
    cases hnode

/-! ### What the sections make of them -/

theorem stem_functionPrototype {key : Key} {signature : Signature} {prototype : Prototype}
    (h : schema.functionPrototype settings key signature = .ok prototype) :
    prototype.stem = Text.pascalCase key := by
  obtain ⟨_, -, h⟩ := bind_eq_ok_iff.mp h
  obtain ⟨_, -, h⟩ := bind_eq_ok_iff.mp h
  exact Except.ok.inj h ▸ rfl

theorem stem_methodPrototype {key : Key} {handle : TypeName} {method : Method}
    {prototype : Prototype}
    (h : schema.methodPrototype settings key handle method = .ok prototype) :
    prototype.stem = Text.pascalCase (key ++ " " ++ method.name) := by
  obtain ⟨_, -, h⟩ := bind_eq_ok_iff.mp h
  obtain ⟨_, -, h⟩ := bind_eq_ok_iff.mp h
  rw [Text.pascalCase_append_space]
  exact Except.ok.inj h ▸ rfl

/-- The stems of functions are spelled from the phrases, in order. -/
theorem stems_prototypes {prototypes : List Prototype}
    (hok : schema.prototypes settings = .ok prototypes) :
    prototypes.map Prototype.stem =
      (schema.phrases settings).map fun phrase ↦ Text.pascalCase phrase.2 := by
  obtain ⟨functions, hfunctions, hok⟩ := bind_eq_ok_iff.mp hok
  obtain ⟨blocks, hblocks, hok⟩ := bind_eq_ok_iff.mp hok
  obtain rfl : functions ++ blocks.flatten = prototypes := Except.ok.inj hok
  have hfunction := map_eq_map_of_mapM (g := Prototype.stem)
    (h := fun declared : Key × Signature ↦ Text.pascalCase declared.1)
    (fun _ _ h ↦ stem_functionPrototype h) hfunctions
  have hobject := map_eq_map_of_mapM (g := List.map Prototype.stem)
    (h := fun declared : Key × Object ↦
      (declared.2.methods.filter fun method ↦ settings.keeps method.tags).map fun method ↦
        Text.pascalCase (declared.1 ++ " " ++ method.name))
    (fun _ _ h ↦ by
      obtain ⟨_, -, h⟩ := bind_eq_ok_iff.mp h
      exact map_eq_map_of_mapM (fun _ _ h ↦ stem_methodPrototype h) h) hblocks
  rw [List.map_append, hfunction, List.map_flatten, hobject, phrases, List.map_append,
    List.map_map, List.map_flatMap]
  simp only [List.map_map]
  rfl

/-- The macros are spelled from the keys of the constants, in order. -/
theorem filterMap_macroName?_constants {items : List Item}
    (hok : schema.constants settings = .ok items) :
    (items.filterMap fun item ↦ item.declaration.macroName?) =
      (schema.keptConstants settings).map fun declared ↦ constantName settings declared.1 := by
  have hnames : items.map (fun item ↦ item.declaration.macroName?) =
      (schema.keptConstants settings).map fun declared ↦
        some (constantName settings declared.1) := by
    refine map_eq_map_of_mapM (fun declared item h ↦ ?_) hok
    obtain ⟨_, _, rfl⟩ := constantItem_eq_ok h
    rfl
  calc
    items.filterMap (fun item ↦ item.declaration.macroName?)
    _ = (items.map fun item ↦ item.declaration.macroName?).filterMap id := by
      rw [List.filterMap_map, Function.id_comp]
    _ = (schema.keptConstants settings).map fun declared ↦ constantName settings declared.1 := by
      rw [hnames, List.filterMap_map]
      exact congrFun List.filterMap_eq_map _

/-- The functions of a header have the symbols of the phrases, and its constants the
macros of their keys. The symbols are distinct exactly if only phrases of one node are
spelled alike, and the macros exactly if the keys of distinct constants differ when they
are capitalised. -/
theorem symbols_distinct_iff (hload : ofDocument document typePrefix = .ok schema)
    (hok : (schema.header settings).result = .ok header) :
    (header.symbols settings = (schema.phrases settings).map fun phrase ↦
        settings.functionPrefix ++ Text.pascalCase phrase.2) ∧
      ((header.symbols settings).Nodup ↔
        ∀ first ∈ schema.phrases settings, ∀ second ∈ schema.phrases settings,
          Text.pascalCase first.2 = Text.pascalCase second.2 → first.1 = second.1) ∧
      (header.macroNames = (schema.keptConstants settings).map fun declared ↦
        settings.upperPrefix ++ "_" ++ Text.constantCase declared.1) ∧
      (header.macroNames.Nodup ↔
        ∀ first ∈ schema.keptConstants settings, ∀ second ∈ schema.keptConstants settings,
          Text.constantCase first.1 = Text.constantCase second.1 → first.1 = second.1) := by
  obtain ⟨hprototypes, hconstants, -⟩ := header_eq_ok_iff.mp hok
  have hsymbols : header.symbols settings = (schema.phrases settings).map fun phrase ↦
      settings.functionPrefix ++ Text.pascalCase phrase.2 := by
    have hstems := congrArg (List.map (settings.functionPrefix ++ ·)) (stems_prototypes hprototypes)
    rwa [List.map_map, List.map_map] at hstems
  have hmacros : header.macroNames = (schema.keptConstants settings).map fun declared ↦
      constantName settings declared.1 := filterMap_macroName?_constants hconstants
  refine ⟨hsymbols, hsymbols ▸ nodup_map_append_iff _ (nodup_phrases hload settings) ?_,
    hmacros, hmacros ▸ nodup_map_append_iff _ ?_ ?_⟩
  · rintro ⟨key, first⟩ hfirst ⟨_, second⟩ hsecond rfl h
    rw [phrase_eq_of_pascalCase_eq hload hfirst hsecond h]
  · exact (schema.nodup_keptConstants settings).of_map
  · intro first hfirst second hsecond hkeys _
    exact List.inj_on_of_nodup_map (schema.nodup_keptConstants settings) hfirst hsecond hkeys

/-- A function, methods of two objects with one name, and constants. -/
def operated : Schema where
  document := ⟨[("create device", .function ⟨some "device", [], []⟩),
    ("device", .object ⟨[⟨"destroy", none, [], []⟩, ⟨"trace", none, [], ["internal"]⟩], []⟩),
    ("queue", .object ⟨[⟨"destroy", none, [], []⟩], []⟩),
    ("whole size", .constant ⟨"uint64_t", .verbatim "UINT64_MAX", []⟩),
    ("size limit", .constant ⟨"uint32_t", .number "16", []⟩)], by decide⟩
  catalogue := ⟨[("device", ⟨"WGPUDevice", .object⟩), ("queue", ⟨"WGPUQueue", .object⟩)],
    by decide⟩

/-- Nothing is spelled alike, so every symbol and every macro is declared once. -/
theorem operated_symbols_distinct :
    ∃ header, (operated.header .standard).result = .ok header ∧
      header.symbols .standard =
        ["wgpuCreateDevice", "wgpuDeviceDestroy", "wgpuDeviceTrace", "wgpuQueueDestroy"] ∧
      (header.symbols .standard).Nodup ∧
      header.macroNames = ["WGPU_WHOLE_SIZE", "WGPU_SIZE_LIMIT"] ∧ header.macroNames.Nodup := by
  have hload : ofDocument operated.document "WGPU" = .ok operated := rfl
  have hwritten : (operated.header .standard).result.isOk = true := by decide +kernel
  obtain ⟨header, hok⟩ := exists_ok_of_isOk hwritten
  obtain ⟨hsymbols, hdistinct, hmacros, hapart⟩ := symbols_distinct_iff hload hok
  refine ⟨header, hok, ?_, hdistinct.mpr ?_, ?_, hapart.mpr ?_⟩
  · rw [hsymbols]
    decide +kernel
  · decide +kernel
  · rw [hmacros]
    decide +kernel
  · decide +kernel

/-- Two objects whose methods have one symbol, and two constants with one macro. -/
def blended : Schema where
  document := ⟨[("buffer", .object ⟨[⟨"map async", none, [], []⟩], []⟩),
    ("buffer map", .object ⟨[⟨"async", none, [], []⟩], []⟩),
    ("whole size", .constant ⟨"uint64_t", .verbatim "UINT64_MAX", []⟩),
    ("whole-size", .constant ⟨"uint64_t", .verbatim "0", []⟩)], by decide⟩
  catalogue := ⟨[("buffer", ⟨"WGPUBuffer", .object⟩), ("buffer map", ⟨"WGPUBufferMap", .object⟩)],
    by decide⟩

/-- The document is loaded and has a header, which declares one function twice and
defines one macro twice. -/
theorem blended_not_distinct : ofDocument blended.document "WGPU" = .ok blended ∧
    ∃ header, (blended.header .standard).result = .ok header ∧
      header.symbols .standard = ["wgpuBufferMapAsync", "wgpuBufferMapAsync"] ∧
      ¬ (header.symbols .standard).Nodup ∧
      header.macroNames = ["WGPU_WHOLE_SIZE", "WGPU_WHOLE_SIZE"] ∧
      ¬ header.macroNames.Nodup := by
  have hsymbols : (blended.header .standard).result.map (Header.symbols .standard) =
      .ok ["wgpuBufferMapAsync", "wgpuBufferMapAsync"] := by
    decide +kernel
  have hmacros : (blended.header .standard).result.map Header.macroNames =
      .ok ["WGPU_WHOLE_SIZE", "WGPU_WHOLE_SIZE"] := by
    decide +kernel
  have hwritten : (blended.header .standard).result.isOk = true := by decide +kernel
  obtain ⟨header, hok⟩ := exists_ok_of_isOk hwritten
  rw [hok] at hsymbols hmacros
  replace hsymbols := Except.ok.inj hsymbols
  replace hmacros := Except.ok.inj hmacros
  refine ⟨rfl, header, hok, hsymbols, ?_, hmacros, ?_⟩
  · rw [hsymbols]
    decide
  · rw [hmacros]
    decide

end Schema

end ApiHeader
