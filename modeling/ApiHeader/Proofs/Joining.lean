import ApiHeader.Proofs.Spelling
import Mathlib.Data.List.Forall2

/-!
# Phrases joined

Every spelling cuts a phrase into words first, so two phrases with a divider between them
are spelled from the words of the one and then those of the other. In Pascal case the
dividers are the blanks, in values and constants hyphens too. The words of values run
together; those of constants are joined by underscores, so an underscore marks the seam
of two phrases unless one of them has no words (`constantCase_append_divider`).

A divider is also what is spelled as nothing when it stands alone, and so there are no other
characters at which two phrases can be joined. For functions this means that the methods of
an object are named as if they were free functions, with the name of the object in front of
theirs (`Schema.freed`). All of this is `spelling_respects_joining`.
-/

set_option autoImplicit false
set_option relaxedAutoImplicit false

namespace ApiHeader

namespace Text

/-! ### Words -/

theorem isBlank_spaced_iff {c : Char} :
    isBlank (if c = '-' then ' ' else c) = true ↔ isBlank c = true ∨ c = '-' := by
  by_cases hhyphen : c = '-'
  · rw [if_pos hhyphen]
    exact iff_of_true rfl (.inr hhyphen)
  · rw [if_neg hhyphen, or_iff_left hhyphen]

/-- The words that a constant is spelled from, in capitals. -/
def constantWords (s : String) : List String :=
  (words (spaceHyphens s.toList)).map fun word ↦ .ofList (word.map Char.toUpper)

theorem constantCase_eq_intercalate (s : String) :
    constantCase s = "_".intercalate (constantWords s) := by
  rw [← String.toList_inj, constantCase, String.toList_ofList, String.toList_intercalate,
    constantWords, List.map_map]
  simp only [Function.comp_def, String.toList_ofList]
  rfl

theorem ne_empty_of_mem_constantWords {s word : String} (hword : word ∈ constantWords s) :
    word ≠ "" := by
  obtain ⟨chars, hchars, rfl⟩ := List.mem_map.mp hword
  rw [ne_eq, String.ofList_eq_empty_iff, List.map_eq_nil_iff]
  exact ne_nil_of_mem_words hchars

/-- The name of a constant is empty only if its phrase has no words. -/
theorem constantCase_eq_empty_iff {s : String} : constantCase s = "" ↔ constantWords s = [] := by
  rw [constantCase_eq_intercalate]
  cases hwords : constantWords s with
  | nil => simp
  | cons word rest =>
    have hne : word ≠ "" := ne_empty_of_mem_constantWords (hwords ▸ List.mem_cons_self)
    cases rest with
    | nil => simpa using hne
    | cons next rest => simp [hne]

/-! ### Seams -/

section Seams

variable {divider : Char} (hdivider : isBlank divider = true ∨ divider = '-')

include hdivider

/-- Where hyphens divide words as well, a blank or a hyphen ends the words of a text. -/
theorem words_spaceHyphens_append_cons (as bs : List Char) :
    words (spaceHyphens (as ++ divider :: bs)) =
      words (spaceHyphens as) ++ words (spaceHyphens bs) := by
  unfold spaceHyphens
  rw [List.map_append, List.map_cons, words_append_cons _ _ (isBlank_spaced_iff.mpr hdivider)]

theorem valueCase_append_divider (first second : String) :
    valueCase (first ++ .singleton divider ++ second) = valueCase first ++ valueCase second := by
  unfold valueCase pascalChars
  rw [toList_append_singleton, words_spaceHyphens_append_cons hdivider, List.flatMap_append,
    String.ofList_append]

theorem constantWords_append_divider (first second : String) :
    constantWords (first ++ .singleton divider ++ second) =
      constantWords first ++ constantWords second := by
  unfold constantWords
  rw [toList_append_singleton, words_spaceHyphens_append_cons hdivider, List.map_append]

/-- Two phrases with a divider between them have an underscore between them in the name of
a constant, if each of them has words. -/
theorem constantCase_append_divider (first second : String) :
    constantCase (first ++ .singleton divider ++ second) =
      if constantCase first ≠ "" ∧ constantCase second ≠ "" then
        constantCase first ++ "_" ++ constantCase second
      else constantCase first ++ constantCase second := by
  rw [constantCase_eq_intercalate (first ++ _ ++ second), constantWords_append_divider hdivider]
  by_cases hfirst : constantCase first = ""
  · rw [if_neg fun h ↦ h.1 hfirst, hfirst, constantCase_eq_empty_iff.mp hfirst, List.nil_append,
      String.empty_append, constantCase_eq_intercalate]
  by_cases hsecond : constantCase second = ""
  · rw [if_neg fun h ↦ h.2 hsecond, hsecond, constantCase_eq_empty_iff.mp hsecond,
      List.append_nil, String.append_empty, constantCase_eq_intercalate]
  · rw [if_pos ⟨hfirst, hsecond⟩, constantCase_eq_intercalate, constantCase_eq_intercalate]
    apply String.intercalate_append_of_ne_nil
    · exact mt constantCase_eq_empty_iff.mpr hfirst
    · exact mt constantCase_eq_empty_iff.mpr hsecond

end Seams

example : constantCase ("query-set\u3000" ++ .singleton '-' ++ " - ") = "QUERY_SET" := by
  decide +kernel

/-! ### Nothing else divides -/

theorem words_singleton_eq_nil_iff {c : Char} : words [c] = [] ↔ isBlank c = true := by
  constructor
  · intro hwords
    by_contra hblank
    rw [words_of_forall (List.cons_ne_nil c [])] at hwords
    · cases hwords
    · intro d hd
      rwa [List.mem_singleton.mp hd, ← Bool.not_eq_true]
  · intro hblank
    exact words_append_cons [] [] hblank

theorem words_spaceHyphens_singleton_eq_nil_iff {c : Char} :
    words (spaceHyphens [c]) = [] ↔ isBlank c = true ∨ c = '-' := by
  rw [← isBlank_spaced_iff]
  exact words_singleton_eq_nil_iff

theorem pascalChars_eq_nil_iff {cs : List Char} : pascalChars cs = [] ↔ words cs = [] := by
  unfold pascalChars
  cases hwords : words cs with
  | nil => simp
  | cons word rest =>
    have hword : word ∈ words cs := hwords ▸ List.mem_cons_self
    obtain ⟨c, word, rfl⟩ := List.exists_cons_of_ne_nil (ne_nil_of_mem_words hword)
    simp [capitalize]

theorem pascalCase_singleton_eq_empty_iff {c : Char} :
    pascalCase (.singleton c) = "" ↔ isBlank c = true := by
  rw [pascalCase, String.ofList_eq_empty_iff, pascalChars_eq_nil_iff, String.toList_singleton,
    words_singleton_eq_nil_iff]

theorem valueCase_singleton_eq_empty_iff {c : Char} :
    valueCase (.singleton c) = "" ↔ isBlank c = true ∨ c = '-' := by
  rw [valueCase, String.ofList_eq_empty_iff, pascalChars_eq_nil_iff, String.toList_singleton,
    words_spaceHyphens_singleton_eq_nil_iff]

theorem constantCase_singleton_eq_empty_iff {c : Char} :
    constantCase (.singleton c) = "" ↔ isBlank c = true ∨ c = '-' := by
  rw [constantCase_eq_empty_iff, constantWords, List.map_eq_nil_iff, String.toList_singleton,
    words_spaceHyphens_singleton_eq_nil_iff]

end Text

/-! ### Methods as free functions -/

/-- What a method takes and gives back, as a free function. -/
def Method.signature (method : Method) : Signature :=
  ⟨method.returns, method.arguments, method.tags⟩

namespace Schema

variable {schema : Schema} {settings : Settings} {key : Key} {prototype : Prototype}
  {prototypes : List Prototype}

/-- The functions of a header, were its methods free functions as well. The key of a method
is then that of its object, a space and its name. -/
def freed (schema : Schema) (settings : Settings) : List (Key × Signature) :=
  schema.keptFunctions settings ++ (schema.keptObjects settings).flatMap fun declared ↦
    (declared.2.methods.filter fun method ↦ settings.keeps method.tags).map fun method ↦
      (declared.1 ++ " " ++ method.name, method.signature)

/-- A prototype has the stem of a free function. That function can be declared here, and no
free function of its key has another stem, whatever its signature and its schema are. -/
def HasStemOf (schema : Schema) (settings : Settings) (free : Key × Signature)
    (prototype : Prototype) : Prop :=
  (∃ function, schema.functionPrototype settings free.1 free.2 = .ok function) ∧
    ∀ (other : Schema) (others : Settings) (signature : Signature) (function : Prototype),
      other.functionPrototype others free.1 signature = .ok function →
        prototype.stem = function.stem

theorem hasStemOf_functionPrototype {signature : Signature}
    (hok : schema.functionPrototype settings key signature = .ok prototype) :
    schema.HasStemOf settings (key, signature) prototype := by
  refine ⟨⟨prototype, hok⟩, ?_⟩
  intro other others signature function hfunction
  rw [stem_functionPrototype hok, stem_functionPrototype hfunction]

theorem hasStemOf_methodPrototype {handle : TypeName} {method : Method}
    (hok : schema.methodPrototype settings key handle method = .ok prototype) :
    schema.HasStemOf settings (key ++ " " ++ method.name, method.signature) prototype := by
  constructor
  · -- a method and a function tell of different places, but only when they fail
    obtain ⟨returns, hreturns, hok⟩ := bind_eq_ok_iff.mp hok
    obtain ⟨parameters, hparameters, -⟩ := bind_eq_ok_iff.mp hok
    exact ⟨_, bind_eq_ok_iff.mpr ⟨returns, returnType_elsewhere hreturns _,
      bind_eq_ok_iff.mpr ⟨parameters, declarators_elsewhere hparameters _, rfl⟩⟩⟩
  · intro other others signature function hfunction
    rw [stem_methodPrototype hok, stem_functionPrototype hfunction]

theorem hasStemOf_objectPrototypes {object : Object}
    (hok : schema.objectPrototypes settings key object = .ok prototypes) :
    List.Forall₂ (schema.HasStemOf settings)
      ((object.methods.filter fun method ↦ settings.keeps method.tags).map fun method ↦
        (key ++ " " ++ method.name, method.signature)) prototypes := by
  obtain ⟨handle, -, hok⟩ := bind_eq_ok_iff.mp hok
  rw [List.forall₂_map_left_iff]
  exact (mapM_eq_ok_iff.mp hok).imp fun _ _ ↦ hasStemOf_methodPrototype

/-- One by one, the prototypes have the stems of the free functions. -/
theorem hasStemOf_prototypes (hok : schema.prototypes settings = .ok prototypes) :
    List.Forall₂ (schema.HasStemOf settings) (schema.freed settings) prototypes := by
  obtain ⟨functions, hfunctions, hok⟩ := bind_eq_ok_iff.mp hok
  obtain ⟨blocks, hblocks, hok⟩ := bind_eq_ok_iff.mp hok
  obtain rfl : functions ++ blocks.flatten = prototypes := Except.ok.inj hok
  apply List.rel_append
  · exact (mapM_eq_ok_iff.mp hfunctions).imp fun _ _ ↦ hasStemOf_functionPrototype
  · rw [List.flatMap_def]
    apply List.rel_flatten
    rw [List.forall₂_map_left_iff]
    exact (mapM_eq_ok_iff.mp hblocks).imp fun _ _ ↦ hasStemOf_objectPrototypes

end Schema

/-- Two phrases can be joined at a blank in Pascal case, at a blank or a hyphen in values and
constants, and at no other character: they are spelled one after the other, in constants with
an underscore between them if neither is empty. So a method has the stem of the free function
whose key is that of its object, a space and its name. -/
theorem spelling_respects_joining :
    (∀ c : Char, (∀ first second : String,
      Text.pascalCase (first ++ .singleton c ++ second) =
        Text.pascalCase first ++ Text.pascalCase second) ↔ Text.isBlank c = true) ∧
    (∀ c : Char, (∀ first second : String,
      Text.valueCase (first ++ .singleton c ++ second) =
        Text.valueCase first ++ Text.valueCase second) ↔ Text.isBlank c = true ∨ c = '-') ∧
    (∀ c : Char, (∀ first second : String,
      Text.constantCase (first ++ .singleton c ++ second) =
        if Text.constantCase first ≠ "" ∧ Text.constantCase second ≠ "" then
          Text.constantCase first ++ "_" ++ Text.constantCase second
        else Text.constantCase first ++ Text.constantCase second) ↔
      Text.isBlank c = true ∨ c = '-') ∧
    (∀ (schema : Schema) (settings : Settings) (key : Key) (handle : TypeName) (method : Method)
      (prototype : Prototype),
      schema.methodPrototype settings key handle method = .ok prototype →
        schema.HasStemOf settings (key ++ " " ++ method.name, method.signature) prototype) ∧
    ∀ (schema : Schema) (settings : Settings) (prototypes : List Prototype),
      schema.prototypes settings = .ok prototypes →
        List.Forall₂ (schema.HasStemOf settings) (schema.freed settings) prototypes := by
  refine ⟨fun c ↦ ⟨?_, Text.pascalCase_append_blank⟩, fun c ↦ ⟨?_, Text.valueCase_append_divider⟩,
    fun c ↦ ⟨?_, Text.constantCase_append_divider⟩, ?_, ?_⟩
  -- a character at which two empty phrases can be joined is spelled as nothing
  · intro hjoin
    have hempty := hjoin "" ""
    rw [String.empty_append, String.append_empty] at hempty
    exact Text.pascalCase_singleton_eq_empty_iff.mp hempty
  · intro hjoin
    have hempty := hjoin "" ""
    rw [String.empty_append, String.append_empty] at hempty
    exact Text.valueCase_singleton_eq_empty_iff.mp hempty
  · intro hjoin
    have hempty := hjoin "" ""
    rw [String.empty_append, String.append_empty] at hempty
    exact Text.constantCase_singleton_eq_empty_iff.mp hempty
  · intro schema settings key handle method prototype hok
    exact Schema.hasStemOf_methodPrototype hok
  · intro schema settings prototypes hok
    exact Schema.hasStemOf_prototypes hok

/-- An object and a free function for one of its methods. Blanks of several kinds stand in
the key of the object and in the names of its methods. -/
def Schema.echoed : Schema where
  document := ⟨[("render pass end", .function ⟨none, [], []⟩),
    ("render  pass", .object ⟨[⟨"\tend ", none, [], []⟩,
      ⟨"set\u3000bind-group", some "bool", [⟨"index", "uint32_t", none, []⟩], []⟩], []⟩)],
    by decide⟩
  catalogue := ⟨[("render  pass", ⟨"WGPURenderPass", .object⟩)], by decide⟩

/-- The first method has the stem of a free function under its joined key, and each function
of the header has that of its own. -/
theorem echoed_stems_joined :
    ∃ function method prototypes,
      Schema.echoed.functionPrototype .standard "render  pass \tend " ⟨none, [], []⟩ =
        .ok function ∧
      Schema.echoed.methodPrototype .standard "render  pass" (.declared "WGPURenderPass")
        ⟨"\tend ", none, [], []⟩ = .ok method ∧
      method.stem = function.stem ∧
      Schema.echoed.prototypes .standard = .ok prototypes ∧
      prototypes.map Prototype.stem =
        ["RenderPassEnd", "RenderPassEnd", "RenderPassSetBind-group"] ∧
      List.Forall₂ (Schema.echoed.HasStemOf .standard) (Schema.echoed.freed .standard)
        prototypes := by
  have hfunction : (Schema.echoed.functionPrototype .standard "render  pass \tend "
      ⟨none, [], []⟩).isOk = true := by
    decide +kernel
  have hmethod : (Schema.echoed.methodPrototype .standard "render  pass"
      (.declared "WGPURenderPass") ⟨"\tend ", none, [], []⟩).isOk = true := by
    decide +kernel
  have hstems : (Schema.echoed.prototypes .standard).map (·.map Prototype.stem) =
      .ok ["RenderPassEnd", "RenderPassEnd", "RenderPassSetBind-group"] := by
    decide +kernel
  obtain ⟨function, hfunction⟩ := exists_ok_of_isOk hfunction
  obtain ⟨method, hmethod⟩ := exists_ok_of_isOk hmethod
  obtain ⟨prototypes, hprototypes, hstems⟩ := map_eq_ok_iff.mp hstems
  have hjoined := spelling_respects_joining.2.2.2
  have hstem : method.stem = function.stem :=
    (hjoined.1 Schema.echoed .standard "render  pass" _ _ method hmethod).2 _ _ _ _ hfunction
  exact ⟨function, method, prototypes, hfunction, hmethod, hstem, hprototypes, hstems,
    hjoined.2 _ _ _ hprototypes⟩

end ApiHeader
