import ApiHeader.Header.Basic
import ApiHeader.Proofs.Section

/-!
# The lines of a header

A header as the list of its declarations in the order of its text: the two word types,
then the sections, and last the functions. `Header.interleaved_lines` says that the text
has them in this order. Each line uses the names of types that the header has to
introduce, and introduces names itself; in a header that is `DeclaredFirst`, a name is
introduced before the line that uses it.
-/

set_option autoImplicit false
set_option relaxedAutoImplicit false

namespace ApiHeader

/-! ### Names -/

/-- Whether a primitive is named after the interface, so that a header introduces it. -/
def Primitive.isOwn : Primitive → Bool
  | .bool | .chainedStruct | .chainedStructOut => true
  | _ => false

theorem Primitive.isOwn_iff {p : Primitive} :
    p.isOwn = true ↔ p = .bool ∨ ∃ direction : Direction, p = direction.link := by
  constructor
  · intro h
    cases p with
    | bool => exact .inl rfl
    | chainedStruct => exact .inr ⟨.inward, rfl⟩
    | chainedStructOut => exact .inr ⟨.outward, rfl⟩
    | _ => cases h
  · rintro (rfl | ⟨_ | _, rfl⟩) <;> rfl

/-- The name of a type that a header has to introduce; a foreign type comes from
elsewhere. -/
def TypeName.own? (typePrefix : String) : TypeName → Option String
  | .primitive p => if p.isOwn then some (p.text typePrefix) else none
  | .declared name => some name
  | .foreign _ => none

/-- The types in a declaration, by name. A macro is no use of its type. -/
def Declaration.types : Declaration → List TypeName
  | .typedef _ type => [type.name]
  | .functionPointer _ returns parameters => returns.name :: parameters.map (·.type.name)
  | .chainLink direction tag => [.primitive direction.link, tag]
  | .record _ members => members.map (·.type.name)
  | .constant _ _ _ | .handle _ | .forward _ | .enumeration _ _ | .flags _ => []

/-- The names of types that a declaration introduces; the members of a record come after
its name. -/
def Declaration.introduces (typePrefix : String) : Declaration → List String
  | .handle name | .forward name | .enumeration name _ | .typedef name _
  | .functionPointer name _ _ => [name]
  | .flags name => [name ++ "Flags"]
  | .chainLink direction _ => [direction.link.text typePrefix]
  | .constant _ _ _ | .record _ _ => []

def Prototype.types (p : Prototype) : List TypeName :=
  p.returns.name :: p.parameters.map (·.type.name)

/-- A declaration at its place in a header. A function has two: the type of pointers to
it, and the function itself. -/
inductive Line where
  | wordType (name : String)
  | declaration (declaration : Declaration)
  | proc (prototype : Prototype)
  | function (prototype : Prototype)
  deriving DecidableEq, Repr

namespace Line

def text (settings : Settings) : Line → String
  | .wordType name => "typedef uint32_t " ++ name ++ ";\n"
  | .declaration d => d.text settings.typePrefix
  | .proc p =>
    "typedef " ++ p.returns.text settings.typePrefix ++ " (*" ++ settings.typePrefix ++
      "Proc" ++ p.stem ++ ")(" ++ p.parameterText settings.typePrefix ++ ");\n"
  | .function p =>
    settings.exportName ++ " " ++ p.returns.text settings.typePrefix ++ " " ++
      settings.functionPrefix ++ p.stem ++ "(" ++ p.parameterText settings.typePrefix ++ ");\n"

def types : Line → List TypeName
  | .wordType _ => []
  | .declaration d => d.types
  | .proc p | .function p => p.types

/-- The names that a header introduces and that a line needs; those of sets of bits are
made from a word type. -/
def uses (typePrefix : String) : Line → List String
  | .declaration (.flags _) => [typePrefix ++ "Flags"]
  | line => line.types.filterMap (TypeName.own? typePrefix)

def introduces (typePrefix : String) : Line → List String
  | .wordType name => [name]
  | .declaration d => d.introduces typePrefix
  | .proc p => [typePrefix ++ "Proc" ++ p.stem]
  | .function _ => []

/-- The tag of a link of a chain, by which the link may refer to itself. -/
def structTags (typePrefix : String) : Line → List String
  | .declaration (.chainLink direction _) => [direction.link.text typePrefix]
  | _ => []

theorem mem_uses {typePrefix name : String} {line : Line} {type : TypeName}
    (htype : type ∈ line.types) (hown : type.own? typePrefix = some name) :
    name ∈ line.uses typePrefix := by
  unfold uses
  split
  · cases htype
  · exact List.mem_filterMap.mpr ⟨type, htype, hown⟩

theorem mem_uses_cases {typePrefix name : String} {line : Line}
    (h : name ∈ line.uses typePrefix) :
    (∃ set, line = .declaration (.flags set) ∧ name = typePrefix ++ "Flags") ∨
      ∃ type ∈ line.types, type.own? typePrefix = some name := by
  unfold uses at h
  split at h
  · exact .inl ⟨_, rfl, List.mem_singleton.mp h⟩
  · exact .inr (List.mem_filterMap.mp h)

end Line

/-! ### Lines in order -/

def itemLines (items : List Item) : List Line :=
  items.map fun item ↦ .declaration item.declaration

theorem itemLines_append (items more : List Item) :
    itemLines (items ++ more) = itemLines items ++ itemLines more :=
  List.map_append

namespace Header

/-- The lines before the aliases. -/
def openingLines (settings : Settings) (header : Header) : List Line :=
  settings.wordTypes.map .wordType ++ (itemLines header.constants ++
    itemLines (header.handles ++ (header.forwards ++ header.enumerations)))

/-- The lines after the links of chains. -/
def closingLines (settings : Settings) (header : Header) : List Line :=
  itemLines header.records ++ ((if settings.procs then header.prototypes.map .proc else []) ++
    header.prototypes.map .function)

def lines (settings : Settings) (header : Header) : List Line :=
  header.openingLines settings ++ (itemLines header.aliases ++
    (header.chainLinks.map .declaration ++ header.closingLines settings))

/-- The lines after the links are those of records and of functions. -/
theorem mem_closingLines_cases {settings : Settings} {header : Header} {line : Line}
    (hline : line ∈ header.closingLines settings) :
    (∃ item ∈ header.records, line = .declaration item.declaration) ∨
      ∃ prototype ∈ header.prototypes, line = .proc prototype ∨ line = .function prototype := by
  rcases List.mem_append.mp hline with hrecord | hline
  · obtain ⟨item, hitem, rfl⟩ := List.mem_map.mp hrecord
    exact .inl ⟨item, hitem, rfl⟩
  · rcases List.mem_append.mp hline with hproc | hfunction
    · split at hproc
      · obtain ⟨prototype, hprototype, rfl⟩ := List.mem_map.mp hproc
        exact .inr ⟨prototype, hprototype, .inl rfl⟩
      · cases hproc
    · obtain ⟨prototype, hprototype, rfl⟩ := List.mem_map.mp hfunction
      exact .inr ⟨prototype, hprototype, .inr rfl⟩

end Header

/-- The pieces stand in the text one after the other, with other text around them. -/
def Interleaved : List String → String → Prop
  | [], _ => True
  | piece :: pieces, text => ∃ gap rest, text = gap ++ piece ++ rest ∧ Interleaved pieces rest

namespace Interleaved

variable {pieces more : List String} {text rest typePrefix : String} {items : List Item}

theorem behind (gap : String) (h : Interleaved pieces text) :
    Interleaved pieces (gap ++ text) := by
  cases pieces with
  | nil => trivial
  | cons piece pieces =>
    obtain ⟨first, rest, rfl, hrest⟩ := h
    refine ⟨gap ++ first, rest, ?_, hrest⟩
    rw [String.append_assoc, String.append_assoc, String.append_assoc]

theorem append (h : Interleaved pieces text) (hmore : Interleaved more rest) :
    Interleaved (pieces ++ more) (text ++ rest) := by
  induction pieces generalizing text with
  | nil => exact hmore.behind text
  | cons piece pieces ih =>
    obtain ⟨gap, last, rfl, hlast⟩ := h
    exact ⟨gap, last ++ rest, String.append_assoc, ih hlast⟩

theorem before (h : Interleaved pieces text) (gap : String) :
    Interleaved pieces (text ++ gap) := by
  have hgap : Interleaved [] gap := trivial
  have happend := h.append hgap
  rwa [List.append_nil] at happend

theorem join (pieces : List String) : Interleaved pieces (String.join pieces) := by
  induction pieces with
  | nil => trivial
  | cons piece pieces ih =>
    refine ⟨"", String.join pieces, ?_, ih⟩
    rw [String.join_cons, String.empty_append]

theorem paragraph (h : Interleaved pieces text) :
    Interleaved pieces (Header.paragraph text) := by
  unfold Header.paragraph
  split
  · rename_i hempty
    exact hempty ▸ h
  · split
    · exact h
    · exact h.before "\n"

theorem constantText (h : Interleaved pieces (itemText typePrefix items)) :
    Interleaved pieces (Header.constantText typePrefix items) := by
  simp only [Header.constantText]
  split
  · rename_i hempty
    exact hempty ▸ h
  · exact h.before "\n"

theorem itemText (settings : Settings) (items : List Item) :
    Interleaved ((itemLines items).map (Line.text settings))
      (itemText settings.typePrefix items) := by
  rw [itemText_eq_join, itemLines, List.map_map]
  exact join _

end Interleaved

/-- The text of a header has its lines in their order. -/
theorem Header.interleaved_lines (settings : Settings) (header : Header) :
    Interleaved ((header.lines settings).map (Line.text settings)) (header.text settings) := by
  have hwords : Interleaved ((settings.wordTypes.map Line.wordType).map (Line.text settings))
      settings.wordTypeText := by
    rw [List.map_map]
    exact (Interleaved.join _).before "\n"
  have hlinks : Interleaved ((header.chainLinks.map Line.declaration).map (Line.text settings))
      (declarationText settings.typePrefix header.chainLinks) := by
    rw [List.map_map]
    exact Interleaved.join _
  have hprocs : Interleaved
      ((if settings.procs then header.prototypes.map Line.proc else []).map (Line.text settings))
      (if settings.procs then settings.procText header.prototypes else "") := by
    split
    · rw [List.map_map]
      exact ((((Interleaved.join _).behind _).before _).before _).before _
    · trivial
  have hfunctions : Interleaved ((header.prototypes.map Line.function).map (Line.text settings))
      (settings.exportText header.prototypes) := by
    rw [List.map_map]
    exact Interleaved.join _
  have hitems := Interleaved.itemText settings
  simp only [lines, openingLines, closingLines, itemLines_append, List.map_append,
    List.append_assoc]
  simp only [text, String.join_cons]
  refine Interleaved.behind _ (hwords.append ((hitems _).constantText.paragraph.append ?_))
  refine (hitems _).paragraph.append ((hitems _).paragraph.append ?_)
  refine (hitems _).paragraph.append ((hitems _).paragraph.append (hlinks.append ?_))
  refine (hitems _).paragraph.append (Interleaved.behind _ (hprocs.append ?_))
  exact hfunctions.before _

/-! ### Names before their uses -/

/-- Of a list of lines, one uses a name, and these stand in front of it. -/
def UsesAfter (typePrefix : String) (lines front : List Line) (line : Line) (name : String) :
    Prop :=
  name ∈ line.uses typePrefix ∧ ∃ back, lines = front ++ line :: back

/-- Some line introduces a name. -/
def Introduced (typePrefix : String) (lines : List Line) (name : String) : Prop :=
  ∃ line ∈ lines, name ∈ line.introduces typePrefix

instance decidableIntroduced (typePrefix : String) (lines : List Line) (name : String) :
    Decidable (Introduced typePrefix lines name) :=
  inferInstanceAs (Decidable (∃ line ∈ lines, name ∈ line.introduces typePrefix))

/-- Whatever a line uses is introduced in front of it, or is the tag that it defines. -/
def DeclaredFirst (typePrefix : String) (lines : List Line) : Prop :=
  ∀ front line name, UsesAfter typePrefix lines front line name →
    Introduced typePrefix front name ∨ name ∈ line.structTags typePrefix

section Names

variable {typePrefix name : String} {lines more front : List Line} {line : Line}

theorem introduced_append : Introduced typePrefix (lines ++ more) name ↔
    Introduced typePrefix lines name ∨ Introduced typePrefix more name := by
  simp only [Introduced, List.mem_append, or_and_right, exists_or]

theorem introduced_itemLines {items : List Item} :
    Introduced typePrefix (itemLines items) name ↔
      ∃ item ∈ items, name ∈ item.declaration.introduces typePrefix := by
  simp only [Introduced, itemLines, List.mem_map, exists_exists_and_eq_and]
  rfl

/-- A use in two lists is one in the first, or in the second after all of the first. -/
theorem usesAfter_append : UsesAfter typePrefix (lines ++ more) front line name ↔
    UsesAfter typePrefix lines front line name ∨
      ∃ between, front = lines ++ between ∧ UsesAfter typePrefix more between line name := by
  constructor
  · rintro ⟨huses, back, hlines⟩
    rcases List.append_eq_append_iff.mp hlines with ⟨between, rfl, hmore⟩ | ⟨rest, rfl, hmore⟩
    · exact .inr ⟨between, rfl, huses, back, hmore⟩
    · rcases List.append_eq_cons_iff.mp hmore.symm with ⟨rfl, rfl⟩ | ⟨rest, rfl, rfl⟩
      · exact .inr ⟨[], by rw [List.append_nil, List.append_nil], huses, back, rfl⟩
      · exact .inl ⟨huses, rest, rfl⟩
  · rintro (⟨huses, back, rfl⟩ | ⟨between, rfl, huses, back, rfl⟩)
    · exact ⟨huses, back ++ more, by rw [List.append_assoc, List.cons_append]⟩
    · exact ⟨huses, back, by rw [List.append_assoc]⟩

theorem UsesAfter.mem (h : UsesAfter typePrefix lines front line name) : line ∈ lines := by
  obtain ⟨-, back, rfl⟩ := h
  exact List.mem_append_right front List.mem_cons_self

/-- A use in the lines of items is one by an item, after the lines of those before it. -/
theorem usesAfter_itemLines {items : List Item}
    (h : UsesAfter typePrefix (itemLines items) front line name) :
    ∃ before item after, items = before ++ item :: after ∧ front = itemLines before ∧
      line = .declaration item.declaration := by
  obtain ⟨-, back, hlines⟩ := h
  obtain ⟨before, rest, rfl, rfl, hrest⟩ := List.map_eq_append_iff.mp hlines
  obtain ⟨item, after, rfl, rfl, -⟩ := List.map_eq_cons_iff.mp hrest
  exact ⟨before, item, after, rfl, rfl, rfl⟩

end Names

end ApiHeader
