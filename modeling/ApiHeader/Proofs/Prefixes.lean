import ApiHeader.Proofs.Registration
import ApiHeader.Proofs.Respelling

/-!
# Prefixes do not decide anything

A document loads under all prefixes or under none, and the schemas it loads to differ in
names only (`Schema.ofDocument_cases`). So whether a text has a header, what is wrong
with it if it has none, and which declarations it has in which order if it has one, is
the same for all settings that exclude the same tags (`prefixes_immaterial`). The one
failure that tells a name is that of two keys spelled alike: it has the prefix in front
of the same ending.
-/

set_option autoImplicit false
set_option relaxedAutoImplicit false

namespace ApiHeader

/-! ### Loading -/

/-- Two failures are the same, except that the name that two keys have in common starts
with the type prefix of each. -/
inductive SameFailure (typePrefix other : String) : HeaderError → HeaderError → Prop where
  | same {e : HeaderError} (hname : ∀ found, e ≠ .schema (.sameName found)) :
      SameFailure typePrefix other e e
  | sameName (ending : String) (first second : Key) :
      SameFailure typePrefix other
        (.schema (.sameName ⟨typePrefix ++ ending, first, second⟩))
        (.schema (.sameName ⟨other ++ ending, first, second⟩))

/-- A document loads under all prefixes or under none. -/
theorem Schema.ofDocument_cases (document : Document) (typePrefix other : String) :
    (∃ e e', ofDocument document typePrefix = .error e ∧ ofDocument document other = .error e' ∧
        SameFailure typePrefix other (.schema e) (.schema e')) ∨
      ∃ schema twin, ofDocument document typePrefix = .ok schema ∧
        ofDocument document other = .ok twin ∧ schema.Respelled twin := by
  rw [ofDocument, ofDocument]
  cases document.clash? with
  | some clash => exact .inl ⟨_, _, rfl, rfl, .same fun found ↦ by simp⟩
  | none =>
    obtain ⟨first, second, -, hnames⟩ | ⟨-, hcatalogues⟩ := Catalogue.ofDocument_cases document
    · rw [hnames typePrefix, hnames other]
      exact .inl ⟨_, _, rfl, rfl, .sameName (Text.pascalCase second) first second⟩
    · obtain ⟨catalogue, hcatalogue⟩ := hcatalogues typePrefix
      obtain ⟨catalogue', hcatalogue'⟩ := hcatalogues other
      refine .inr ⟨⟨document, catalogue⟩, ⟨document, catalogue'⟩, ?_, ?_, rfl, ?_⟩
      · rw [hcatalogue]
      · rw [hcatalogue']
      · simp only [Catalogue.categories, Catalogue.entries_ofDocument hcatalogue,
          Catalogue.entries_ofDocument hcatalogue', List.map_map]
        rfl

/-! ### Texts -/

theorem headerOfText_cases (text : String) {settings other : Settings}
    (hexclusion : settings.exclusion = other.exclusion) :
    (∃ e e', (headerOfText text settings).result = .error e ∧
        (headerOfText text other).result = .error e' ∧
        SameFailure settings.typePrefix other.typePrefix e e') ∨
      ∃ document header rest, Document.read text = .ok document ∧
        document.Yields settings.typePrefix settings header ∧
        document.Yields other.typePrefix other rest ∧
        (headerOfText text settings).result = .ok (header.text settings) ∧
        (headerOfText text other).result = .ok (rest.text other) ∧
        header.outline = rest.outline := by
  rw [headerOfText, headerOfText, Schema.read, Schema.read]
  cases Document.read text with
  | error e => exact .inl ⟨_, _, rfl, rfl, .same fun found ↦ by simp⟩
  | ok document =>
    obtain ⟨e, e', herror, herror', hsame⟩ | ⟨schema, twin, hload, hload', hrespelled⟩ :=
      Schema.ofDocument_cases document settings.typePrefix other.typePrefix
    · simp only [herror, herror']
      exact .inl ⟨_, _, rfl, rfl, hsame⟩
    · simp only [hload, hload']
      obtain ⟨e, herror, herror'⟩ | ⟨header, rest, hheader, hrest, houtline⟩ :=
        (hrespelled.header hexclusion).cases
      · have htext : (schema.headerText settings).result = .error e := by
          rw [Schema.headerText, Logged.result_map, herror]
          rfl
        have htext' : (twin.headerText other).result = .error e := by
          rw [Schema.headerText, Logged.result_map, herror']
          rfl
        -- A loaded schema fails for a type or for a cycle, never for a name.
        refine .inl ⟨e, e, htext, htext', .same fun found hfound ↦ ?_⟩
        subst hfound
        rcases (Schema.checks_headerText hload settings).genuine _ htext with
          ⟨type, context, -, -, hkind⟩ | ⟨path, -, hkind⟩
        · cases hkind
        · cases hkind
      · have htext := Schema.headerText_eq_ok_iff.mpr ⟨header, hheader, rfl⟩
        have htext' := Schema.headerText_eq_ok_iff.mpr ⟨rest, hrest, rfl⟩
        exact .inr ⟨document, header, rest, rfl, ⟨schema, hload, hheader, htext⟩,
          ⟨twin, hload', hrest, htext'⟩, htext, htext', houtline⟩

/-- Whether a text has a header does not depend on the prefixes, the guard, the export
macro and the types of function pointers, but only on the excluded tags. When it has
none the failure is the same, up to the prefix of a name, and when it has one all
sections have the same keys in the same order. -/
theorem prefixes_immaterial (text : String) {settings other : Settings}
    (hexclusion : settings.exclusion = other.exclusion) :
    ((∃ out, (headerOfText text settings).result = .ok out) ↔
      ∃ out, (headerOfText text other).result = .ok out) ∧
    (∀ e e', (headerOfText text settings).result = .error e →
      (headerOfText text other).result = .error e' →
        SameFailure settings.typePrefix other.typePrefix e e') ∧
    ∀ out out', (headerOfText text settings).result = .ok out →
      (headerOfText text other).result = .ok out' →
        ∃ document header rest, Document.read text = .ok document ∧
          document.Yields settings.typePrefix settings header ∧
          document.Yields other.typePrefix other rest ∧ out = header.text settings ∧
          out' = rest.text other ∧ header.outline = rest.outline := by
  obtain ⟨e, e', herror, herror', hsame⟩ |
    ⟨document, header, rest, hread, hheader, hrest, hok, hok', houtline⟩ :=
      headerOfText_cases text hexclusion
  · simp only [herror, herror', Except.error.injEq]
    refine ⟨by simp, ?_, ?_⟩
    · rintro _ _ rfl rfl
      exact hsame
    · intro out out' hout
      cases hout
  · simp only [hok, hok', Except.ok.injEq]
    refine ⟨iff_of_true ⟨_, rfl⟩ ⟨_, rfl⟩, ?_, ?_⟩
    · intro e e' herror
      cases herror
    · rintro _ _ rfl rfl
      exact ⟨document, header, rest, hread, hheader, hrest, rfl, rfl, houtline⟩

/-- A record that holds another, which comes after it in the text. -/
def heldText : String :=
  "\x7b\"a\":\x7b\"category\":\"structure\",\"members\":[\x7b\"name\":\"x\",\"type\":\"b\"\x7d]\x7d," ++
    "\"b\":\x7b\"category\":\"structure\"\x7d\x7d"

/-- The record that is held comes first under both prefixes. -/
theorem heldText_outline : ∃ document header rest, Document.read heldText = .ok document ∧
    document.Yields "WGPU" .standard header ∧
    document.Yields "Gfx" (Settings.standard.withTypePrefix "Gfx") rest ∧
    header.outline = ⟨[], [], ["a", "b"], [], [], ["b", "a"], []⟩ ∧
    header.outline = rest.outline := by
  have hexclusion : Settings.standard.exclusion =
      (Settings.standard.withTypePrefix "Gfx").exclusion := rfl
  have hwritten : (headerOfText heldText .standard).result.isOk = true := by decide +kernel
  obtain ⟨out, hout⟩ := exists_ok_of_isOk hwritten
  obtain ⟨hiff, -, hsame⟩ := prefixes_immaterial heldText hexclusion
  obtain ⟨out', hout'⟩ := hiff.mp ⟨out, hout⟩
  obtain ⟨document, header, rest, hread, hheader, hrest, -, -, houtline⟩ :=
    hsame out out' hout hout'
  refine ⟨document, header, rest, hread, hheader, hrest, ?_, houtline⟩
  obtain ⟨schema, hload, hheader, -⟩ := hheader
  have hschema : Schema.read heldText "WGPU" = .ok schema := by
    rw [Schema.read, hread]
    exact hload
  have hvalue : (do
      let schema ← (Schema.read heldText "WGPU").toOption
      (schema.header .standard).result.toOption).map Header.outline =
        some ⟨[], [], ["a", "b"], [], [], ["b", "a"], []⟩ := by decide +kernel
  rw [hschema] at hvalue
  change ((schema.header .standard).result.toOption).map Header.outline = _ at hvalue
  rw [hheader] at hvalue
  exact Option.some.inj hvalue

end ApiHeader
