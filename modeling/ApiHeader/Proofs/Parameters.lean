import ApiHeader.Proofs.DeclaredFirst
import ApiHeader.Proofs.InnerNames

/-!
# Parameters

The lines of a header that list parameters are those of functions, of pointers to them, and
of the aliases that name pointers to functions (`Line.parameters?`). The parameters are the
arguments that are kept, and a method has its object in front of them, under a name that is
spelled from the key of the object (`Schema.Takes`). Loading compares the arguments with each
other but not with that name, so the parameters of a method are distinct exactly if no
argument that is kept is spelled as the object is; all other lists are always distinct
(`parameters_distinct_iff`).
-/

set_option autoImplicit false
set_option relaxedAutoImplicit false

namespace ApiHeader

namespace Line

/-- The function that a line is about. -/
def prototype? : Line → Option Prototype
  | .proc prototype | .function prototype => some prototype
  | .wordType _ | .declaration _ => none

/-- The parameters that a line lists between brackets. -/
def parameters? : Line → Option (List Declarator)
  | .declaration (.functionPointer _ _ parameters) => some parameters
  | .proc prototype | .function prototype => some prototype.parameters
  | .wordType _ | .declaration _ => none

variable {line : Line} {parameters : List Declarator}

theorem types_ne_nil_of_parameters? (h : line.parameters? = some parameters) :
    line.types ≠ [] := by
  cases line with
  | wordType name => cases h
  | proc prototype | function prototype => exact List.cons_ne_nil _ _
  | declaration declaration =>
    cases declaration with
    | functionPointer name returns parameters => exact List.cons_ne_nil _ _
    | _ => cases h

/-- A declaration that lists parameters is one of a pointer to a function. -/
theorem functionPointer_of_parameters? {declaration : Declaration}
    (h : (Line.declaration declaration).parameters? = some parameters) :
    ∃ name returns, declaration = .functionPointer name returns parameters := by
  cases declaration with
  | functionPointer name returns listed => exact ⟨name, returns, by rw [Option.some.inj h]⟩
  | _ => cases h

/-- A line that lists parameters ends with them. -/
theorem text_of_parameters? (settings : Settings) (h : line.parameters? = some parameters) :
    ∃ lead, line.text settings = lead ++ "(" ++
      parameterText (parameters.map (Declarator.text settings.typePrefix)) ++ ");\n" := by
  have hbrackets (before after : String) :
      before ++ ")(" ++ after = before ++ ")" ++ "(" ++ after := by
    simp only [String.append_assoc]
    rfl
  cases line with
  | wordType name => cases h
  | declaration declaration =>
    obtain ⟨name, returns, rfl⟩ := functionPointer_of_parameters? h
    refine ⟨"typedef " ++ returns.text settings.typePrefix ++ " (*" ++ name ++ ")", ?_⟩
    rw [← hbrackets]
    rfl
  | proc prototype =>
    refine ⟨"typedef " ++ prototype.returns.text settings.typePrefix ++ " (*" ++
      settings.typePrefix ++ "Proc" ++ prototype.stem ++ ")", ?_⟩
    rw [← hbrackets, ← Option.some.inj h]
    rfl
  | function prototype =>
    rw [← Option.some.inj h]
    exact ⟨_, rfl⟩

end Line

theorem Node.nodup_arguments {node : Node} (hdistinct : node.NamesDistinct)
    {signature : Signature} (hpointer : node.pointer? = some signature) :
    (signature.arguments.map fun m ↦ Text.camelCase m.name).Nodup := by
  cases node <;> cases hpointer <;> exact hdistinct

namespace Schema

variable {document : Document} {typePrefix : String} {schema : Schema} {settings : Settings}
  {header : Header} {line : Line} {parameters : List Declarator}

/-- What a line takes: the name under which a method takes its object, and the arguments that
are kept. -/
inductive Takes (schema : Schema) (settings : Settings) :
    Line → Option String → List Member → Prop where
  | pointer {key : Key} {type : DeclaredType} {signature : Signature} {returns : TypeRef}
      {parameters : List Declarator} (htype : schema.type? key = some type)
      (hpointer : type.node.pointer? = some signature) :
      Takes schema settings (.declaration (.functionPointer type.name returns parameters)) none
        (settings.keptMembers signature.arguments)
  | function {line : Line} {prototype : Prototype} {signature : Signature}
      (hline : line.prototype? = some prototype)
      (hkept : (prototype.key, signature) ∈ schema.keptFunctions settings) :
      Takes schema settings line none (settings.keptMembers signature.arguments)
  | method {line : Line} {prototype : Prototype} {object : Object} {method : Method}
      (hline : line.prototype? = some prototype)
      (hkept : (prototype.key, object) ∈ schema.keptObjects settings)
      (hmethod : method ∈ object.methods) (hkeeps : settings.keeps method.tags = true)
      (hstem : prototype.stem = Text.pascalCase prototype.key ++ Text.pascalCase method.name) :
      Takes schema settings line (some (Text.camelCase prototype.key))
        (settings.keptMembers method.arguments)

/-! ### Functions and methods -/

section Prototypes

variable {key : Key} {signature : Signature} {object : Object} {method : Method}
  {handle : TypeName} {prototype : Prototype} {prototypes : List Prototype}

theorem names_functionPrototype
    (h : schema.functionPrototype settings key signature = .ok prototype) :
    prototype.key = key ∧ prototype.parameters.map Declarator.name =
      (settings.keptMembers signature.arguments).map fun m ↦ Text.camelCase m.name := by
  obtain ⟨returns, -, h⟩ := bind_eq_ok_iff.mp h
  obtain ⟨parameters, hparameters, h⟩ := bind_eq_ok_iff.mp h
  rw [← Except.ok.inj h]
  exact ⟨rfl, map_name_declarators hparameters⟩

/-- The parameters of a method are its object and then its arguments. -/
theorem names_methodPrototype
    (h : schema.methodPrototype settings key handle method = .ok prototype) :
    prototype.key = key ∧
      prototype.stem = Text.pascalCase key ++ Text.pascalCase method.name ∧
      prototype.parameters.map Declarator.name = Text.camelCase key ::
        (settings.keptMembers method.arguments).map fun m ↦ Text.camelCase m.name := by
  obtain ⟨returns, -, h⟩ := bind_eq_ok_iff.mp h
  obtain ⟨parameters, hparameters, h⟩ := bind_eq_ok_iff.mp h
  rw [← Except.ok.inj h]
  refine ⟨rfl, rfl, ?_⟩
  rw [List.map_cons, map_name_declarators hparameters]

theorem mem_objectPrototypes_iff
    (hok : schema.objectPrototypes settings key object = .ok prototypes) :
    prototype ∈ prototypes ↔ ∃ handle, schema.resolve key key = .ok handle ∧
      ∃ method ∈ object.methods, settings.keeps method.tags = true ∧
        schema.methodPrototype settings key handle method = .ok prototype := by
  obtain ⟨handle, hhandle, hok⟩ := bind_eq_ok_iff.mp hok
  rw [hhandle, mem_mapM_iff hok]
  simp only [List.mem_filter, Except.ok.injEq, exists_eq_left', and_assoc]

theorem takes_of_mem_prototypes (hok : schema.prototypes settings = .ok prototypes)
    (hmem : prototype ∈ prototypes) (hline : line.prototype? = some prototype) :
    ∃ receiver arguments, schema.Takes settings line receiver arguments ∧
      prototype.parameters.map Declarator.name =
        receiver.toList ++ arguments.map fun m ↦ Text.camelCase m.name := by
  obtain ⟨functions, hfunctions, hok⟩ := bind_eq_ok_iff.mp hok
  obtain ⟨blocks, hblocks, hok⟩ := bind_eq_ok_iff.mp hok
  rw [← Except.ok.inj hok, List.mem_append, List.mem_flatten] at hmem
  rcases hmem with hmem | ⟨block, hblock, hmem⟩
  · obtain ⟨⟨key, signature⟩, hkept, hprototype⟩ := (mem_mapM_iff hfunctions).mp hmem
    obtain ⟨rfl, hnames⟩ := names_functionPrototype hprototype
    exact ⟨none, _, .function hline hkept, hnames⟩
  · obtain ⟨⟨key, object⟩, hkept, hblock⟩ := (mem_mapM_iff hblocks).mp hblock
    obtain ⟨handle, -, method, hmethod, hkeeps, hprototype⟩ :=
      (mem_objectPrototypes_iff hblock).mp hmem
    obtain ⟨rfl, hstem, hnames⟩ := names_methodPrototype hprototype
    exact ⟨_, _, .method hline hkept hmethod hkeeps hstem, hnames⟩

/-- Every method that is kept has its function in the header. -/
theorem exists_prototype_of_method (hok : schema.prototypes settings = .ok prototypes)
    (hkept : (key, object) ∈ schema.keptObjects settings) (hmethod : method ∈ object.methods)
    (hkeeps : settings.keeps method.tags = true) :
    ∃ prototype ∈ prototypes, prototype.parameters.map Declarator.name = Text.camelCase key ::
      (settings.keptMembers method.arguments).map fun m ↦ Text.camelCase m.name := by
  obtain ⟨functions, -, hok⟩ := bind_eq_ok_iff.mp hok
  obtain ⟨blocks, hblocks, hok⟩ := bind_eq_ok_iff.mp hok
  obtain ⟨block, hblock⟩ := exists_ok_of_mapM hblocks hkept
  obtain ⟨handle, hhandle, hmethods⟩ := bind_eq_ok_iff.mp hblock
  obtain ⟨prototype, hprototype⟩ :=
    exists_ok_of_mapM hmethods (List.mem_filter.mpr ⟨hmethod, hkeeps⟩)
  have hmem : prototype ∈ block := (mem_mapM_iff hmethods).mpr
    ⟨method, List.mem_filter.mpr ⟨hmethod, hkeeps⟩, hprototype⟩
  refine ⟨prototype, ?_, (names_methodPrototype hprototype).2.2⟩
  rw [← Except.ok.inj hok, List.mem_append, List.mem_flatten]
  exact .inr ⟨block, (mem_mapM_iff hblocks).mpr ⟨(key, object), hkept, hblock⟩, hmem⟩

end Prototypes

/-! ### All lines -/

theorem takes_of_mem_aliases {items : List Item}
    (hok : (schema.aliases settings).result = .ok items) {item : Item} (hitem : item ∈ items)
    {name : String} {returns : TypeRef}
    (hpointer : item.declaration = .functionPointer name returns parameters) :
    ∃ arguments, schema.Takes settings (.declaration (.functionPointer name returns parameters))
      none arguments ∧
        parameters.map Declarator.name = arguments.map fun m ↦ Text.camelCase m.name := by
  obtain ⟨type, htype, -, hline⟩ := isAliasLine_of_mem_aliases hok hitem
  rw [hpointer] at hline
  rcases hline with ⟨typedef, target, -, -, hline⟩ |
    ⟨signature, result, declared, hsignature, -, hdeclared, hline⟩
  · cases hline
  · obtain ⟨rfl, rfl, rfl⟩ := Declaration.functionPointer.inj hline
    exact ⟨_, .pointer htype hsignature, map_name_declarators hdeclared⟩

/-- The parameters that a line of a header lists are those that it takes. -/
theorem takes_of_mem_lines (hok : (schema.header settings).result = .ok header)
    (hline : line ∈ header.lines settings) (hparameters : line.parameters? = some parameters) :
    ∃ receiver arguments, schema.Takes settings line receiver arguments ∧
      parameters.map Declarator.name =
        receiver.toList ++ arguments.map fun m ↦ Text.camelCase m.name := by
  obtain ⟨hprototypes, -, haliases, hlinks, hrecords, -⟩ := header_eq_ok_iff.mp hok
  rcases List.mem_append.mp hline with hopening | hline
  · exact absurd (types_of_mem_openingLines hok hopening)
      (Line.types_ne_nil_of_parameters? hparameters)
  rcases List.mem_append.mp hline with halias | hline
  · obtain ⟨item, hitem, rfl⟩ := List.mem_map.mp halias
    obtain ⟨name, returns, hpointer⟩ := Line.functionPointer_of_parameters? hparameters
    rw [hpointer]
    obtain ⟨arguments, htakes, hnames⟩ := takes_of_mem_aliases haliases hitem hpointer
    exact ⟨none, arguments, htakes, hnames⟩
  rcases List.mem_append.mp hline with hlink | hclosing
  · obtain ⟨link, hmem, rfl⟩ := List.mem_map.mp hlink
    obtain ⟨tag, -, hpair⟩ := chainLinks_eq_ok settings hlinks
    rw [hpair] at hmem
    rcases List.mem_pair.mp hmem with rfl | rfl <;> cases hparameters
  rcases Header.mem_closingLines_cases hclosing with
    ⟨item, hitem, rfl⟩ | ⟨prototype, hprototype, hcase⟩
  · obtain ⟨_, _, _, -, -, -, -, hbody⟩ := isBody_of_mem_records hrecords hitem
    obtain ⟨_, _, hpointer⟩ := Line.functionPointer_of_parameters? hparameters
    rw [hbody] at hpointer
    cases hpointer
  · obtain rfl : prototype.parameters = parameters := by
      rcases hcase with rfl | rfl <;> exact Option.some.inj hparameters
    apply takes_of_mem_prototypes hprototypes hprototype
    rcases hcase with rfl | rfl <;> rfl

/-! ### Names that come from a description -/

/-- Loading has compared the arguments of a line with each other. -/
theorem Takes.nodup_arguments (hload : ofDocument document typePrefix = .ok schema)
    {receiver : Option String} {arguments : List Member}
    (h : schema.Takes settings line receiver arguments) :
    (arguments.map fun m ↦ Text.camelCase m.name).Nodup := by
  -- what is kept of a list without repetitions has none
  have hkept (members : List Member) (hall : (members.map fun m ↦ Text.camelCase m.name).Nodup) :
      ((settings.keptMembers members).map fun m ↦ Text.camelCase m.name).Nodup := by
    unfold Settings.keptMembers
    exact hall.sublist (List.filter_sublist.map _)
  cases h with
  | pointer htype hpointer =>
    have hdistinct := namesDistinct hload (declares_of_type? htype).2.2
    exact hkept _ (Node.nodup_arguments hdistinct hpointer)
  | function hline hfunction =>
    have hdistinct := namesDistinct hload (mem_keptFunctions_iff.mp hfunction).1
    exact hkept _ hdistinct
  | method hline hobject hmethod hkeeps hstem =>
    have hdistinct := namesDistinct hload (mem_keptObjects_iff.mp hobject).1
    exact hkept _ (hdistinct.2 _ hmethod)

/-- A line that lists parameters lists those that it takes, and they are distinct exactly if no
argument is spelled as the object in front of them. So all lists of parameters in a header
are distinct exactly if no method that is kept has an argument that is kept and spelled as
its object. -/
theorem parameters_distinct_iff (hload : ofDocument document typePrefix = .ok schema)
    (hok : (schema.header settings).result = .ok header) :
    (∀ line ∈ header.lines settings, ∀ parameters, line.parameters? = some parameters →
      ∃ receiver arguments, schema.Takes settings line receiver arguments ∧
        (∃ lead, line.text settings = lead ++ "(" ++
          parameterText (parameters.map (Declarator.text settings.typePrefix)) ++ ");\n") ∧
        parameters.map Declarator.name =
          receiver.toList ++ arguments.map (fun m ↦ Text.camelCase m.name) ∧
        ((parameters.map Declarator.name).Nodup ↔
          ∀ argument ∈ arguments, receiver ≠ some (Text.camelCase argument.name))) ∧
    ((∀ line ∈ header.lines settings, ∀ parameters, line.parameters? = some parameters →
        (parameters.map Declarator.name).Nodup) ↔
      ∀ declared ∈ schema.keptObjects settings, ∀ method ∈ declared.2.methods,
        settings.keeps method.tags = true → ∀ argument ∈ settings.keptMembers method.arguments,
          Text.camelCase argument.name ≠ Text.camelCase declared.1) := by
  have hlist {line : Line} (hline : line ∈ header.lines settings) {parameters : List Declarator}
      (hparameters : line.parameters? = some parameters) :
      ∃ receiver arguments, schema.Takes settings line receiver arguments ∧
        parameters.map Declarator.name =
          receiver.toList ++ arguments.map (fun m ↦ Text.camelCase m.name) ∧
        ((parameters.map Declarator.name).Nodup ↔
          ∀ argument ∈ arguments, receiver ≠ some (Text.camelCase argument.name)) := by
    obtain ⟨receiver, arguments, htakes, hnames⟩ := takes_of_mem_lines hok hline hparameters
    refine ⟨receiver, arguments, htakes, hnames, ?_⟩
    rw [hnames, nodup_toList_append_iff (htakes.nodup_arguments hload), List.forall_mem_map]
  refine ⟨?_, ?_, ?_⟩
  · intro line hline parameters hparameters
    obtain ⟨receiver, arguments, htakes, hnames, hdistinct⟩ := hlist hline hparameters
    exact ⟨receiver, arguments, htakes, Line.text_of_parameters? settings hparameters, hnames,
      hdistinct⟩
  · intro hall declared hkept method hmethod hkeeps argument hargument hsame
    obtain ⟨hprototypes, -⟩ := header_eq_ok_iff.mp hok
    obtain ⟨prototype, hprototype, hnames⟩ :=
      exists_prototype_of_method hprototypes hkept hmethod hkeeps
    have hline : Line.function prototype ∈ header.lines settings := by
      unfold Header.lines Header.closingLines
      simp only [List.mem_append, List.mem_map_of_mem hprototype, or_true]
    have hdistinct := hall _ hline _ rfl
    rw [hnames, List.nodup_cons] at hdistinct
    exact hdistinct.1 (List.mem_map.mpr ⟨argument, hargument, hsame⟩)
  · intro hnone line hline parameters hparameters
    obtain ⟨receiver, arguments, htakes, -, hdistinct⟩ := hlist hline hparameters
    apply hdistinct.mpr
    intro argument hargument hsame
    cases htakes with
    | pointer => cases hsame
    | function => cases hsame
    | method hline hkept hmethod hkeeps hstem =>
      exact hnone _ hkept _ hmethod hkeeps argument hargument (Option.some.inj hsame).symm

/-- A method with an argument that has a tag and is spelled as its object, a callback with an
argument of that name, and a function. -/
def echoing : Schema where
  document := ⟨[("buffer", .object ⟨[⟨"map", none, [⟨"offset", "uint32_t", none, []⟩,
      ⟨"Buffer", "uint32_t", none, ["internal"]⟩], []⟩], []⟩),
    ("done", .callback ⟨none, [⟨"buffer", "buffer", none, []⟩], []⟩),
    ("copy", .function ⟨none, [⟨"from", "buffer", none, []⟩, ⟨"to", "buffer", none, []⟩], []⟩)],
    by decide⟩
  catalogue := ⟨[("buffer", ⟨"WGPUBuffer", .object⟩), ("done", ⟨"WGPUDone", .callback⟩)],
    by decide⟩

/-- Without the argument that has a tag, all lists of parameters are distinct. -/
theorem echoing_parameters_distinct :
    ∃ header, (echoing.header (Settings.standard.withExclusion ⟨["internal"], by decide⟩)).result =
        .ok header ∧
      header.prototypes.map (fun p ↦ p.parameters.map Declarator.name) =
        [["from", "to"], ["buffer", "offset"]] ∧
      ∀ line ∈ header.lines (Settings.standard.withExclusion ⟨["internal"], by decide⟩),
        ∀ parameters, line.parameters? = some parameters →
          (parameters.map Declarator.name).Nodup := by
  have hload : ofDocument echoing.document "WGPU" = .ok echoing := rfl
  have hnames : (echoing.header
      (Settings.standard.withExclusion ⟨["internal"], by decide⟩)).result.map (fun header ↦
        header.prototypes.map fun p ↦ p.parameters.map Declarator.name) =
          .ok [["from", "to"], ["buffer", "offset"]] := by
    decide +kernel
  obtain ⟨header, hok, hnames⟩ := map_eq_ok_iff.mp hnames
  refine ⟨header, hok, hnames, ?_⟩
  exact (parameters_distinct_iff hload hok).2.mpr (by decide +kernel)

/-- The document is loaded and has a header, in which a method takes two parameters of one
name. -/
theorem echoing_parameters_not_distinct :
    ofDocument echoing.document "WGPU" = .ok echoing ∧
      ∃ header, (echoing.header .standard).result = .ok header ∧
        ∃ line ∈ header.lines .standard, ∃ parameters, line.parameters? = some parameters ∧
          parameters.map Declarator.name = ["buffer", "offset", "buffer"] ∧
          ¬ (parameters.map Declarator.name).Nodup := by
  have hlisted : (echoing.header .standard).result.map (fun header ↦
      (header.lines .standard).any fun line ↦
        line.parameters?.map (List.map Declarator.name) = some ["buffer", "offset", "buffer"]) =
          .ok true := by
    decide +kernel
  obtain ⟨header, hok, hlisted⟩ := map_eq_ok_iff.mp hlisted
  obtain ⟨line, hline, hnames⟩ := List.any_eq_true.mp hlisted
  obtain ⟨parameters, hparameters, hnames⟩ := Option.map_eq_some_iff.mp (of_decide_eq_true hnames)
  refine ⟨rfl, header, hok, line, hline, parameters, hparameters, hnames, ?_⟩
  rw [hnames]
  decide

end Schema

end ApiHeader
