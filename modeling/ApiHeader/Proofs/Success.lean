import ApiHeader.Header.Basic
import ApiHeader.Proofs.AliasOrder
import ApiHeader.Proofs.RecordOrder

/-!
# When there is a header

`Schema.Refers` lists the places of a schema whose type names a header has to write.
A loaded schema has a header exactly when all of these names have a meaning, aliases
do not name one another in a cycle, and records do not hold one another in a cycle;
and if there is none, the failure tells one of the reasons (`header_written_iff`).
-/

set_option autoImplicit false
set_option relaxedAutoImplicit false

namespace ApiHeader

theorem Logged.result_map {α β : Type} (f : α → β) (x : Logged α) :
    (f <$> x).result = x.result >>= fun a ↦ pure (f a) :=
  result_bind x (pure ∘ f)

namespace Schema

variable {document : Document} {typePrefix : String} {schema : Schema} {settings : Settings}

/-! ### Functions and methods -/

theorem mem_keptNodes_iff {key : Key} {node : Node} :
    (key, node) ∈ schema.keptNodes settings ↔
      schema.document.get? key = some node ∧ settings.keeps node.tags = true := by
  rw [keptNodes, List.mem_filter, Table.get?_eq_some_iff]

/-- The kept nodes of one category, with their contents. -/
theorem mem_filterMap_keptNodes {α : Type} {select : Key × Node → Option (Key × α)}
    {wrap : α → Node}
    (hselect : ∀ declared key a, select declared = some (key, a) ↔ declared = (key, wrap a))
    {key : Key} {a : α} : (key, a) ∈ (schema.keptNodes settings).filterMap select ↔
      schema.document.get? key = some (wrap a) ∧ settings.keeps (wrap a).tags = true := by
  simp only [List.mem_filterMap, hselect, exists_eq_right, mem_keptNodes_iff]

theorem mem_keptFunctions_iff {key : Key} {signature : Signature} :
    (key, signature) ∈ schema.keptFunctions settings ↔
      schema.document.get? key = some (.function signature) ∧
        settings.keeps signature.tags = true :=
  mem_filterMap_keptNodes fun ⟨_, node⟩ key signature ↦ by cases node <;> simp

theorem mem_keptObjects_iff {key : Key} {object : Object} :
    (key, object) ∈ schema.keptObjects settings ↔
      schema.document.get? key = some (.object object) ∧ settings.keeps object.tags = true :=
  mem_filterMap_keptNodes fun ⟨_, node⟩ key object ↦ by cases node <;> simp

theorem mem_keptConstants_iff {key : Key} {constant : Constant} :
    (key, constant) ∈ schema.keptConstants settings ↔
      schema.document.get? key = some (.constant constant) ∧
        settings.keeps constant.tags = true :=
  mem_filterMap_keptNodes fun ⟨_, node⟩ key constant ↦ by cases node <;> simp

/-- The places in the signatures of functions and methods whose types a header has to
write. -/
inductive PrototypeRefers (schema : Schema) (settings : Settings) : String → String → Prop where
  | function {key : Key} {signature : Signature} {type context : String}
      (hnode : schema.document.get? key = some (.function signature))
      (hkeeps : settings.keeps signature.tags = true)
      (hrefers : SignatureRefers settings signature.returns signature.arguments key type context) :
      PrototypeRefers schema settings type context
  | method {key : Key} {object : Object} {method : Method} {type context : String}
      (hnode : schema.document.get? key = some (.object object))
      (hkeeps : settings.keeps object.tags = true) (hmethod : method ∈ object.methods)
      (hkept : settings.keeps method.tags = true)
      (hrefers : SignatureRefers settings method.returns method.arguments
        (key ++ "." ++ method.name) type context) :
      PrototypeRefers schema settings type context

theorem checks_functionPrototype (schema : Schema) (settings : Settings) (key : Key)
    (signature : Signature) :
    Checks (schema.functionPrototype settings key signature)
      (schema.Misses (SignatureRefers settings signature.returns signature.arguments key)) :=
  schema.checks_signature settings signature.returns signature.arguments key _

/-- The key of an object has a meaning: it is that of a primitive or in the catalogue. -/
theorem resolves_object (hload : ofDocument document typePrefix = .ok schema) {key : Key}
    {object : Object} (hnode : schema.document.get? key = some (.object object)) :
    schema.Resolves key := by
  cases hprimitive : Primitive.ofName? key with
  | some primitive => exact .inl (by rw [hprimitive]; rfl)
  | none =>
    have hdeclares : schema.Declares key (.object object) :=
      (declares_iff hload).mpr ⟨hnode, by rw [Catalogue.registers, hprimitive]; rfl⟩
    exact .inr (.inl hdeclares.1)

theorem checks_objectPrototypes (hload : ofDocument document typePrefix = .ok schema) {key : Key}
    {object : Object} (hnode : schema.document.get? key = some (.object object)) :
    Checks (schema.objectPrototypes settings key object) fun e ↦
      ∃ method ∈ object.methods.filter fun m ↦ settings.keeps m.tags,
        schema.Misses (SignatureRefers settings method.returns method.arguments
          (key ++ "." ++ method.name)) e := by
  refine ((schema.checks_resolve key key).bind fun handle ↦ Checks.mapM fun method _ ↦
    schema.checks_signature settings method.returns method.arguments _ _).congr fun e ↦ ?_
  have hresolves : ¬ schema.Unresolved key key e := fun hfault ↦
    hfault.1 (resolves_object hload hnode)
  rw [or_iff_right hresolves]

/-- The functions of a header are refused exactly when a type name in the signature of
a function or of a method has no meaning. -/
theorem checks_prototypes (hload : ofDocument document typePrefix = .ok schema)
    (settings : Settings) :
    Checks (schema.prototypes settings) (schema.Misses (schema.PrototypeRefers settings)) := by
  refine ((Checks.mapM fun (declared : Key × Signature) _ ↦
      schema.checks_functionPrototype settings declared.1 declared.2).bind fun _ ↦
    (Checks.mapM fun (declared : Key × Object) hdeclared ↦ checks_objectPrototypes hload
      (mem_keptObjects_iff.mp hdeclared).1).map).congr fun e ↦ ⟨?_, ?_⟩
  · rintro (⟨declared, hdeclared, _, _, hrefers, hfault⟩ |
      ⟨declared, hdeclared, method, hmethod, _, _, hrefers, hfault⟩)
    · obtain ⟨hnode, hkeeps⟩ := mem_keptFunctions_iff.mp hdeclared
      exact ⟨_, _, .function hnode hkeeps hrefers, hfault⟩
    · obtain ⟨hnode, hkeeps⟩ := mem_keptObjects_iff.mp hdeclared
      obtain ⟨hmethod, hkept⟩ := List.mem_filter.mp hmethod
      exact ⟨_, _, .method hnode hkeeps hmethod hkept hrefers, hfault⟩
  · rintro ⟨_, _, ⟨hnode, hkeeps, hrefers⟩ | ⟨hnode, hkeeps, hmethod, hkept, hrefers⟩, hfault⟩
    · have hdeclared := mem_keptFunctions_iff.mpr ⟨hnode, hkeeps⟩
      exact .inl ⟨_, hdeclared, _, _, hrefers, hfault⟩
    · have hdeclared := mem_keptObjects_iff.mpr ⟨hnode, hkeeps⟩
      exact .inr ⟨_, hdeclared, _, List.mem_filter.mpr ⟨hmethod, hkept⟩, _, _, hrefers, hfault⟩

/-! ### Constants -/

theorem checks_constantItem (schema : Schema) (settings : Settings) (key : Key)
    (constant : Constant) :
    Checks (schema.constantItem settings key constant) fun e ↦
      ∃ number, constant.value = .number number ∧ schema.Unresolved constant.type key e := by
  rw [constantItem]
  cases constant.value with
  | number text => exact (schema.checks_resolve constant.type key).map.congr fun e ↦ by simp
  | verbatim text => exact (Checks.ok _).congr fun e ↦ by simp

/-- The numbers whose types a header has to write. -/
inductive ConstantRefers (schema : Schema) (settings : Settings) : String → String → Prop where
  | number {key : Key} {constant : Constant} {number : String}
      (hnode : schema.document.get? key = some (.constant constant))
      (hkeeps : settings.keeps constant.tags = true) (hvalue : constant.value = .number number) :
      ConstantRefers schema settings constant.type key

/-- The constants of a header are refused exactly when the type of a number has no
meaning. -/
theorem checks_constants (schema : Schema) (settings : Settings) :
    Checks (schema.constants settings) (schema.Misses (schema.ConstantRefers settings)) := by
  refine (Checks.mapM fun (declared : Key × Constant) _ ↦
    schema.checks_constantItem settings declared.1 declared.2).congr fun e ↦ ⟨?_, ?_⟩
  · rintro ⟨declared, hdeclared, number, hvalue, hfault⟩
    obtain ⟨hnode, hkeeps⟩ := mem_keptConstants_iff.mp hdeclared
    exact ⟨_, _, .number hnode hkeeps hvalue, hfault⟩
  · rintro ⟨_, _, ⟨hnode, hkeeps, hvalue⟩, hfault⟩
    exact ⟨_, mem_keptConstants_iff.mpr ⟨hnode, hkeeps⟩, _, hvalue, hfault⟩

/-! ### The whole header -/

/-- A header has to write the type name, for the place of the context: in a function or
a method, a number, an alias or a member of a record, as far as these are kept. -/
def Refers (schema : Schema) (settings : Settings) (type context : String) : Prop :=
  schema.PrototypeRefers settings type context ∨ schema.ConstantRefers settings type context ∨
    schema.AliasRefers settings type context ∨ schema.MemberRefers settings type context

/-- What can be wrong with a loaded schema. -/
def Fault (schema : Schema) (settings : Settings) (e : HeaderError) : Prop :=
  schema.Misses (schema.Refers settings) e ∨
    ∃ path, (SimpleCycle schema.Names path ∨ SimpleCycle schema.Holds path) ∧ e = .cyclic path

theorem checks_chainLinks (schema : Schema) : Checks schema.chainLinks.result fun _ ↦ False := by
  rw [chainLinks, Logged.result_bind, chainTag]
  cases schema.catalogue.get? chainTagKey <;> exact Checks.ok _

theorem result_header (schema : Schema) (settings : Settings) :
    (schema.header settings).result = (do
      let prototypes ← schema.prototypes settings
      let constants ← schema.constants settings
      let aliases ← (schema.aliases settings).result
      let chainLinks ← schema.chainLinks.result
      let records ← (schema.records settings).result
      return {
        constants
        handles := schema.handles settings
        forwards := schema.forwards settings
        enumerations := schema.enumerations settings
        aliases
        chainLinks
        records
        prototypes }) := by
  rw [header]
  split <;>
    simp only [Logged.result_bind, Logged.result_lift, Logged.result_note, Logged.result_pure] <;>
    rfl

/-- A header is written when all its sections are. -/
theorem header_eq_ok_iff {header : Header} :
    (schema.header settings).result = .ok header ↔
      schema.prototypes settings = .ok header.prototypes ∧
        schema.constants settings = .ok header.constants ∧
        (schema.aliases settings).result = .ok header.aliases ∧
        schema.chainLinks.result = .ok header.chainLinks ∧
        (schema.records settings).result = .ok header.records ∧
        schema.handles settings = header.handles ∧ schema.forwards settings = header.forwards ∧
        schema.enumerations settings = header.enumerations := by
  rw [result_header]
  constructor
  · intro h
    obtain ⟨prototypes, hprototypes, h⟩ := bind_eq_ok_iff.mp h
    obtain ⟨constants, hconstants, h⟩ := bind_eq_ok_iff.mp h
    obtain ⟨aliases, haliases, h⟩ := bind_eq_ok_iff.mp h
    obtain ⟨chainLinks, hchainLinks, h⟩ := bind_eq_ok_iff.mp h
    obtain ⟨records, hrecords, h⟩ := bind_eq_ok_iff.mp h
    obtain rfl := Except.ok.inj h
    exact ⟨hprototypes, hconstants, haliases, hchainLinks, hrecords, rfl, rfl, rfl⟩
  · rintro ⟨hprototypes, hconstants, haliases, hchainLinks, hrecords, hhandles, hforwards, henums⟩
    rw [hprototypes, hconstants, haliases, hchainLinks, hrecords, hhandles, hforwards, henums]
    rfl

theorem headerText_eq_ok_iff {text : String} :
    (schema.headerText settings).result = .ok text ↔
      ∃ header, (schema.header settings).result = .ok header ∧ header.text settings = text := by
  rw [headerText, Logged.result_map, bind_eq_ok_iff]
  simp only [pure, Except.pure, Except.ok.injEq]

/-- A header is refused exactly when there is a fault in one of its parts. -/
theorem checks_headerText (hload : ofDocument document typePrefix = .ok schema)
    (settings : Settings) :
    Checks (schema.headerText settings).result (schema.Fault settings) := by
  rw [headerText, Logged.result_map, result_header]
  refine ((checks_prototypes hload settings).bind fun _ ↦
    (schema.checks_constants settings).bind fun _ ↦ (checks_aliases hload settings).bind fun _ ↦
      schema.checks_chainLinks.bind fun _ ↦
        (checks_records hload settings).map).map.congr fun e ↦ ?_
  have hrefers : schema.Misses (schema.Refers settings) e ↔
      schema.Misses (schema.PrototypeRefers settings) e ∨
        schema.Misses (schema.ConstantRefers settings) e ∨
        schema.Misses (schema.AliasRefers settings) e ∨
        schema.Misses (schema.MemberRefers settings) e := by
    rw [← misses_or, ← misses_or, ← misses_or]
    rfl
  rw [Fault, hrefers]
  simp only [SectionFault, or_and_right, exists_or, false_or]
  simp only [or_assoc, or_left_comm]

/-- A loaded schema has a header exactly when aliases do not name and records do not
hold one another in a cycle, and every type name that the header has to write has a
meaning. Otherwise the failure tells such a cycle, or such a name and its place. -/
theorem header_written_iff (hload : ofDocument document typePrefix = .ok schema)
    (settings : Settings) :
    ((∃ text, (schema.headerText settings).result = .ok text) ↔
      Acyclic schema.Names ∧ Acyclic schema.Holds ∧
        ∀ type context, schema.Refers settings type context → schema.Resolves type) ∧
    ∀ e, (schema.headerText settings).result = .error e →
      (∃ type context, e = .unresolved type context ∧ schema.Refers settings type context ∧
        ¬ schema.Resolves type) ∨
      ∃ path, e = .cyclic path ∧
        (SimpleCycle schema.Names path ∨ SimpleCycle schema.Holds path) := by
  have hchecks := checks_headerText hload settings
  refine ⟨?_, ?_⟩
  · rw [hchecks.exists_ok_iff, ← need_aliases_eq hload, ← need_links_eq,
      Walk.acyclic_iff_forall_not_simpleCycle, Walk.acyclic_iff_forall_not_simpleCycle,
      need_aliases_eq hload, need_links_eq]
    constructor
    · intro hnone
      refine ⟨?_, ?_, ?_⟩
      · exact fun path hpath ↦ hnone _ (.inr ⟨path, .inl hpath, rfl⟩)
      · exact fun path hpath ↦ hnone _ (.inr ⟨path, .inr hpath, rfl⟩)
      · intro type context hrefers
        by_contra hresolves
        exact hnone _ (.inl ⟨type, context, hrefers, hresolves, rfl⟩)
    · rintro ⟨hnames, hholds, hresolves⟩ e (⟨type, context, hrefers, hfault⟩ | ⟨path, hpath, -⟩)
      · exact hfault.1 (hresolves type context hrefers)
      · exact hpath.elim (hnames path) (hholds path)
  · intro e herror
    rcases hchecks.genuine e herror with ⟨type, context, hrefers, hresolves, he⟩ | ⟨path, hpath, he⟩
    · exact .inl ⟨type, context, he, hrefers, hresolves⟩
    · exact .inr ⟨path, he, hpath⟩

theorem nested_header_written : Acyclic nested.Names ∧ Acyclic nested.Holds ∧
    ∀ type context, nested.Refers .standard type context → nested.Resolves type := by
  have hload : ofDocument nested.document "WGPU" = .ok nested := rfl
  have hwritten : (nested.headerText .standard).result.isOk = true := by decide +kernel
  exact (header_written_iff hload .standard).1.mp (exists_ok_of_isOk hwritten)

end Schema

/-! ### Headers of documents -/

namespace Document

/-- The document is loaded, and these are the sections of its header. -/
def Yields (document : Document) (typePrefix : String) (settings : Settings) (header : Header) :
    Prop :=
  ∃ schema, Schema.ofDocument document typePrefix = .ok schema ∧
    (schema.header settings).result = .ok header ∧
    (schema.headerText settings).result = .ok (header.text settings)

variable {document : Document} {typePrefix : String} {settings : Settings} {header rest : Header}

theorem Yields.unique (h : document.Yields typePrefix settings header)
    (hrest : document.Yields typePrefix settings rest) : header = rest := by
  obtain ⟨schema, hload, hheader, -⟩ := h
  obtain ⟨schema', hload', hheader', -⟩ := hrest
  obtain rfl : schema = schema' := Except.ok.inj (hload.symm.trans hload')
  exact Except.ok.inj (hheader.symm.trans hheader')

end Document

end ApiHeader
