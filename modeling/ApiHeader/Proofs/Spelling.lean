import ApiHeader.Proofs.Casing
import ApiHeader.Proofs.Symbols

/-!
# Spellings that agree

Names are compared in camel case when a document is checked, and methods are written in
Pascal case. The two spellings differ in the first letter only, and the large letter can be
had back from the small one (`capitalize_uncapitalize_pascalChars`), so they tell the same
names apart. A text that is spelled has no blank left in it and is a single word, which is
why spelling it again changes nothing (`pascalChars_of_forall`, `constantCase_of_forall`).
Both facts together are `spellings_agree`, with what follows for the methods of an object.
-/

set_option autoImplicit false
set_option relaxedAutoImplicit false

namespace ApiHeader

namespace Text

/-! ### Letters -/

theorem toNat_toLower (c : Char) : c.toLower.toNat =
    if 65 ≤ c.toNat ∧ c.toNat ≤ 90 then c.toNat + 32 else c.toNat := by
  unfold Char.toLower
  split
  · rename_i hcapital
    have hlow : 65 ≤ c.toNat := hcapital.1
    have hhigh : c.toNat ≤ 90 := hcapital.2
    have hshift : ('a'.val - 'A'.val).toNat = 32 := rfl
    rw [if_pos ⟨hlow, hhigh⟩]
    change (c.val + ('a'.val - 'A'.val)).toNat = c.toNat + 32
    rw [UInt32.toNat_add, hshift]
    change (c.toNat + 32) % 2 ^ 32 = c.toNat + 32
    omega
  · rename_i hother
    exact (if_neg hother).symm

theorem toUpper_toLower (c : Char) : c.toLower.toUpper = c.toUpper := by
  rw [← Char.toNat_inj, toNat_toUpper, toNat_toUpper, toNat_toLower]
  grind

theorem toUpper_toUpper (c : Char) : c.toUpper.toUpper = c.toUpper := by
  rw [← Char.toNat_inj, toNat_toUpper, toNat_toUpper]
  grind

theorem isBlank_toLower (c : Char) : isBlank c.toLower = isBlank c := by
  rw [← isBlank_toUpper, toUpper_toLower, isBlank_toUpper]

/-- What comes before the letters is the capital of nothing else. -/
theorem toUpper_eq_iff {c d : Char} (hd : d.toNat < 65) : c.toUpper = d ↔ c = d := by
  rw [← Char.toNat_inj, ← Char.toNat_inj, toNat_toUpper]
  grind

/-! ### First letters -/

theorem capitalize_uncapitalize (cs : List Char) :
    capitalize (uncapitalize cs) = capitalize cs := by
  cases cs with
  | nil => rfl
  | cons c cs =>
    show c.toLower.toUpper :: cs = c.toUpper :: cs
    rw [toUpper_toLower]

theorem ne_nil_of_mem_words {cs word : List Char} (hword : word ∈ words cs) : word ≠ [] := by
  unfold words at hword
  simpa using (List.mem_filter.mp hword).2

/-- Pascal case begins with a capital, or with what has none. -/
theorem capitalize_pascalChars (cs : List Char) :
    capitalize (pascalChars cs) = pascalChars cs := by
  unfold pascalChars
  cases hwords : words cs with
  | nil => rfl
  | cons word rest =>
    have hword : word ∈ words cs := by
      rw [hwords]
      exact List.mem_cons_self
    obtain ⟨c, word, rfl⟩ := List.exists_cons_of_ne_nil (ne_nil_of_mem_words hword)
    rw [List.flatMap_cons]
    show c.toUpper.toUpper :: _ = c.toUpper :: _
    rw [toUpper_toUpper]

/-- The first letter of a name in Pascal case can be had back from camel case. -/
theorem capitalize_uncapitalize_pascalChars (cs : List Char) :
    capitalize (uncapitalize (pascalChars cs)) = pascalChars cs := by
  rw [capitalize_uncapitalize, capitalize_pascalChars]

theorem camelCase_eq_iff {s t : String} :
    camelCase s = camelCase t ↔ pascalCase s = pascalCase t := by
  constructor
  · intro h
    have hchars : uncapitalize (pascalChars s.toList) = uncapitalize (pascalChars t.toList) :=
      String.ofList_injective h
    unfold pascalCase
    rw [← capitalize_uncapitalize_pascalChars, hchars, capitalize_uncapitalize_pascalChars]
  · exact camelCase_eq_of_pascalCase_eq

/-! ### A second time -/

/-- A text without a blank is one word, unless it is empty. -/
theorem words_of_forall {cs : List Char} (hne : cs ≠ []) (h : ∀ c ∈ cs, isBlank c = false) :
    words cs = [cs] := by
  unfold words
  rw [List.splitOnP_eq_singleton h]
  simpa using hne

theorem pascalChars_of_forall {cs : List Char} (h : ∀ c ∈ cs, isBlank c = false) :
    pascalChars cs = capitalize cs := by
  by_cases hne : cs = []
  · rw [hne]
    rfl
  · unfold pascalChars
    rw [words_of_forall hne h, List.flatMap_singleton]

theorem isBlank_of_mem_uncapitalize {cs : List Char} (h : ∀ c ∈ cs, isBlank c = false) {c : Char}
    (hc : c ∈ uncapitalize cs) : isBlank c = false := by
  cases cs with
  | nil => cases hc
  | cons first rest =>
    rcases List.mem_cons.mp hc with hc | hc
    · rw [hc, isBlank_toLower]
      exact h first List.mem_cons_self
    · exact h c (List.mem_cons_of_mem first hc)

theorem isBlank_of_mem_pascalCase {s : String} {c : Char} (hc : c ∈ (pascalCase s).toList) :
    isBlank c = false := by
  unfold pascalCase at hc
  rw [String.toList_ofList] at hc
  exact isBlank_of_mem_pascalChars hc

theorem isBlank_of_mem_camelCase {s : String} {c : Char} (hc : c ∈ (camelCase s).toList) :
    isBlank c = false := by
  unfold camelCase at hc
  rw [String.toList_ofList] at hc
  apply isBlank_of_mem_uncapitalize _ hc
  intro d hd
  exact isBlank_of_mem_pascalChars hd

theorem isBlank_of_mem_valueCase {s : String} {c : Char} (hc : c ∈ (valueCase s).toList) :
    isBlank c = false := by
  unfold valueCase at hc
  rw [String.toList_ofList] at hc
  exact isBlank_of_mem_pascalChars hc

theorem pascalCase_pascalCase (s : String) : pascalCase (pascalCase s) = pascalCase s := by
  have hagain : pascalChars (pascalCase s).toList = pascalChars s.toList := by
    rw [pascalChars_of_forall fun c hc ↦ isBlank_of_mem_pascalCase hc]
    unfold pascalCase
    rw [String.toList_ofList, capitalize_pascalChars]
  show String.ofList (pascalChars (pascalCase s).toList) = String.ofList (pascalChars s.toList)
  rw [hagain]

theorem camelCase_camelCase (s : String) : camelCase (camelCase s) = camelCase s := by
  have hagain : pascalChars (camelCase s).toList = pascalChars s.toList := by
    rw [pascalChars_of_forall fun c hc ↦ isBlank_of_mem_camelCase hc]
    unfold camelCase
    rw [String.toList_ofList, capitalize_uncapitalize_pascalChars]
  show String.ofList (uncapitalize (pascalChars (camelCase s).toList)) =
    String.ofList (uncapitalize (pascalChars s.toList))
  rw [hagain]

/-! ### Constants -/

/-- A character that is written in the name of a constant as it stands: it divides no
words and is no small letter. -/
def StaysInConstant (c : Char) : Prop :=
  isBlank c = false ∧ c ≠ '-' ∧ c.toUpper = c

theorem ne_hyphen_of_mem_spaceHyphens {cs : List Char} {c : Char} (hc : c ∈ spaceHyphens cs) :
    c ≠ '-' := by
  obtain ⟨d, -, hd⟩ := List.mem_map.mp hc
  intro h
  rw [h] at hd
  split at hd <;> contradiction

theorem mem_intercalate {α : Type} {separator : List α} {pieces : List (List α)} {a : α}
    (ha : a ∈ separator.intercalate pieces) : a ∈ separator ∨ ∃ piece ∈ pieces, a ∈ piece := by
  induction pieces with
  | nil =>
    rw [List.intercalate_nil] at ha
    cases ha
  | cons piece pieces ih =>
    cases pieces with
    | nil =>
      rw [List.intercalate_singleton] at ha
      exact .inr ⟨piece, List.mem_cons_self, ha⟩
    | cons next pieces =>
      rw [List.intercalate_cons_cons, List.mem_append, List.mem_append] at ha
      rcases ha with (ha | ha) | ha
      · exact .inr ⟨piece, List.mem_cons_self, ha⟩
      · exact .inl ha
      · apply (ih ha).imp_right
        rintro ⟨other, hother, ha⟩
        exact ⟨other, List.mem_cons_of_mem piece hother, ha⟩

theorem staysInConstant_of_mem {s : String} {c : Char} (hc : c ∈ (constantCase s).toList) :
    StaysInConstant c := by
  unfold constantCase at hc
  rw [String.toList_ofList] at hc
  rcases mem_intercalate hc with hc | ⟨piece, hpiece, hc⟩
  · rw [List.mem_singleton.mp hc]
    unfold StaysInConstant
    decide
  · obtain ⟨word, hword, rfl⟩ := List.mem_map.mp hpiece
    obtain ⟨d, hd, rfl⟩ := List.mem_map.mp hc
    refine ⟨?_, ?_, toUpper_toUpper d⟩
    · rw [isBlank_toUpper]
      exact isBlank_of_mem_words hword hd
    · rw [ne_eq, toUpper_eq_iff (d := '-') (by decide)]
      exact ne_hyphen_of_mem_spaceHyphens (mem_of_mem_words hword hd)

theorem constantCase_of_forall {s : String} (h : ∀ c ∈ s.toList, StaysInConstant c) :
    constantCase s = s := by
  have hhyphens : spaceHyphens s.toList = s.toList := by
    apply (List.map_congr_left _).trans (List.map_id _)
    intro c hc
    rw [if_neg (h c hc).2.1, id]
  have hcapitals : s.toList.map Char.toUpper = s.toList := by
    apply (List.map_congr_left _).trans (List.map_id _)
    intro c hc
    exact (h c hc).2.2
  unfold constantCase
  rw [hhyphens]
  by_cases hne : s.toList = []
  · rw [hne, words_nil, List.map_nil, List.intercalate_nil, ← hne, String.ofList_toList]
  · rw [words_of_forall hne fun c hc ↦ (h c hc).1, List.map_singleton, List.intercalate_singleton,
      hcapitals, String.ofList_toList]

theorem constantCase_constantCase (s : String) : constantCase (constantCase s) = constantCase s :=
  constantCase_of_forall fun _ hc ↦ staysInConstant_of_mem hc

end Text

/-! ### Methods -/

namespace Schema

variable {schema : Schema} {settings : Settings} {key : Key} {object : Object}
  {prototypes : List Prototype}

theorem stems_objectPrototypes
    (hok : schema.objectPrototypes settings key object = .ok prototypes) :
    prototypes.map Prototype.stem =
      (object.methods.filter fun method ↦ settings.keeps method.tags).map fun method ↦
        Text.pascalCase key ++ Text.pascalCase method.name := by
  obtain ⟨handle, -, hok⟩ := bind_eq_ok_iff.mp hok
  apply map_eq_map_of_mapM _ hok
  intro method prototype hprototype
  rw [stem_methodPrototype hprototype, Text.pascalCase_append_space]

/-- Where no two methods are the same in camel case, no two are the same in Pascal case. -/
theorem nodup_stems_objectPrototypes
    (hmethods : (object.methods.map fun method ↦ Text.camelCase method.name).Nodup)
    (hok : schema.objectPrototypes settings key object = .ok prototypes) :
    (prototypes.map Prototype.stem).Nodup := by
  have hkept : (object.methods.filter fun method ↦ settings.keeps method.tags).Pairwise
      fun first second ↦ Text.camelCase first.name ≠ Text.camelCase second.name := by
    apply List.Pairwise.filter
    exact List.pairwise_map.mp hmethods
  rw [stems_objectPrototypes hok]
  apply List.pairwise_map.mpr
  apply hkept.imp
  intro first second hcamel hstem
  apply hcamel
  rw [String.append_right_inj] at hstem
  exact Text.camelCase_eq_iff.mpr hstem

end Schema

/-- Camel case and Pascal case tell the same names apart, what is spelled stays as it is when
it is spelled again, and names have no blank. So the methods of an object that are kept have
distinct stems in a document without a clash. -/
theorem spellings_agree :
    (∀ s t : String, Text.camelCase s = Text.camelCase t ↔
      Text.pascalCase s = Text.pascalCase t) ∧
    (∀ s : String, Text.pascalCase (Text.pascalCase s) = Text.pascalCase s ∧
      Text.camelCase (Text.camelCase s) = Text.camelCase s ∧
      Text.constantCase (Text.constantCase s) = Text.constantCase s) ∧
    (∀ (s : String) (c : Char), c ∈ (Text.pascalCase s).toList ∨ c ∈ (Text.camelCase s).toList ∨
      c ∈ (Text.valueCase s).toList → Text.isBlank c = false) ∧
    ∀ (schema : Schema) (settings : Settings) (key : Key) (object : Object)
      (prototypes : List Prototype), schema.document.clash? = none →
      schema.document.get? key = some (.object object) →
      schema.objectPrototypes settings key object = .ok prototypes →
        prototypes.map Prototype.stem =
          (object.methods.filter fun method ↦ settings.keeps method.tags).map (fun method ↦
            Text.pascalCase key ++ Text.pascalCase method.name) ∧
        (prototypes.map Prototype.stem).Nodup := by
  refine ⟨fun s t ↦ Text.camelCase_eq_iff, fun s ↦ ⟨Text.pascalCase_pascalCase s,
    Text.camelCase_camelCase s, Text.constantCase_constantCase s⟩, ?_, ?_⟩
  · rintro s c (hc | hc | hc)
    · exact Text.isBlank_of_mem_pascalCase hc
    · exact Text.isBlank_of_mem_camelCase hc
    · exact Text.isBlank_of_mem_valueCase hc
  · intro schema settings key object prototypes hclash hnode hok
    have hdistinct : (Node.object object).NamesDistinct :=
      Document.clash?_eq_none_iff.mp hclash _ (Table.get?_eq_some_iff.mp hnode)
    exact ⟨Schema.stems_objectPrototypes hok,
      Schema.nodup_stems_objectPrototypes hdistinct.1 hok⟩

/-- An object whose methods begin with letters outside of ASCII and with a digit. -/
def Object.accented : Object :=
  ⟨[⟨"éclat", none, [], []⟩, ⟨"Éclat", none, [], []⟩, ⟨"trace", none, [], ["internal"]⟩,
    ⟨"1d\u3000slice", none, [], []⟩], []⟩

def Schema.accented : Schema where
  document := ⟨[("  ray  query", .object .accented)], by decide⟩
  catalogue := ⟨[("  ray  query", ⟨"WGPURayQuery", .object⟩)], by decide⟩

/-- Only the letters of ASCII have a case, so its methods are told apart. -/
theorem accented_stems_distinct :
    ∃ prototypes, Schema.accented.objectPrototypes
        (Settings.standard.withExclusion ⟨["internal"], by decide⟩) "  ray  query" .accented =
          .ok prototypes ∧
      prototypes.map Prototype.stem = ["RayQueryéclat", "RayQueryÉclat", "RayQuery1dSlice"] ∧
      (prototypes.map Prototype.stem).Nodup := by
  have hwritten : (Schema.accented.objectPrototypes
      (Settings.standard.withExclusion ⟨["internal"], by decide⟩) "  ray  query"
      .accented).isOk = true := by
    decide +kernel
  obtain ⟨prototypes, hok⟩ := exists_ok_of_isOk hwritten
  obtain ⟨hstems, hnodup⟩ := spellings_agree.2.2.2 Schema.accented _ "  ray  query" _ prototypes
    (by decide +kernel) rfl hok
  refine ⟨prototypes, hok, ?_, hnodup⟩
  rw [hstems]
  decide +kernel

end ApiHeader
