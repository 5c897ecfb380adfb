import ApiHeader.Header.Sections

/-!
# Headers

`Schema.header` gathers the sections of a header as lists of declarations, and
`Header.text` is their text, within a frame: include guard, export macro and includes
before the declarations, linkage and the end of the guard after them. A header is whole
or there is none: the first failure of any section is the failure of the header.
-/

set_option autoImplicit false
set_option relaxedAutoImplicit false

namespace ApiHeader.Settings

/-! ### The frame of a header -/

variable (settings : Settings)

/-- The include guard, the export macro and the includes. -/
def prologue : String :=
  let guard := settings.headerGuard
  let exported := settings.exportName
  let upper := settings.upperPrefix
  String.join [
    "#ifndef " ++ guard ++ "\n#define " ++ guard ++ "\n\n",
    "#if defined(" ++ upper ++ "_SHARED_LIBRARY)\n",
    "#    if defined(_WIN32)\n",
    "#        if defined(" ++ upper ++ "_IMPLEMENTATION)\n",
    "#            define " ++ exported ++ " __declspec(dllexport)\n",
    "#        else\n",
    "#            define " ++ exported ++ " __declspec(dllimport)\n",
    "#        endif\n",
    "#    else  // defined(_WIN32)\n",
    "#        if defined(" ++ upper ++ "_IMPLEMENTATION)\n",
    "#            define " ++ exported ++ " __attribute__((visibility(\"default\")))\n",
    "#        else\n",
    "#            define " ++ exported ++ "\n",
    "#        endif\n",
    "#    endif  // defined(_WIN32)\n",
    "#else  // defined(" ++ upper ++ "_SHARED_LIBRARY)\n",
    "#    define " ++ exported ++ "\n",
    "#endif  // defined(" ++ upper ++ "_SHARED_LIBRARY)\n\n",
    "#include <stdint.h>\n",
    "#include <stddef.h>\n\n"]

/-- The names of the two word types that every header has. -/
def wordTypes : List String :=
  [settings.typePrefix ++ "Flags", settings.typePrefix ++ "Bool"]

def wordTypeText : String :=
  String.join (settings.wordTypes.map fun name ↦ "typedef uint32_t " ++ name ++ ";\n") ++ "\n"

/-- Where C linkage begins. -/
def linkageOpen : String :=
  "#ifdef __cplusplus\nextern \"C\" \x7b\n#endif\n\n"

/-- Where C linkage and the include guard end. -/
def epilogue : String :=
  "\n#ifdef __cplusplus\n\x7d // extern \"C\"\n#endif\n\n#endif // " ++ settings.headerGuard ++ "\n"

end ApiHeader.Settings

namespace ApiHeader

/-! ### Headers -/

structure Header where
  constants : List Item
  handles : List Item
  forwards : List Item
  enumerations : List Item
  aliases : List Item
  chainLinks : List Declaration
  records : List Item
  prototypes : List Prototype

namespace Header

/-- The constants and an empty line, if there are any. -/
def constantText (typePrefix : String) (items : List Item) : String :=
  let text := itemText typePrefix items
  if text = "" then "" else text ++ "\n"

/-- A section is followed by one empty line, unless it is empty. -/
def paragraph (text : String) : String :=
  if text = "" then ""
  else if ['\n', '\n'].isSuffixOf text.toList then text
  else text ++ "\n"

def text (settings : Settings) (header : Header) : String :=
  let items := itemText settings.typePrefix
  String.join [
    settings.prologue,
    settings.wordTypeText,
    paragraph (constantText settings.typePrefix header.constants),
    paragraph (items header.handles),
    paragraph (items header.forwards),
    paragraph (items header.enumerations),
    paragraph (items header.aliases),
    declarationText settings.typePrefix header.chainLinks,
    paragraph (items header.records),
    Settings.linkageOpen,
    if settings.procs then settings.procText header.prototypes else "",
    settings.exportText header.prototypes,
    settings.epilogue]

end Header

namespace Schema

/-- The header of a schema. Functions are looked at before all else. -/
def header (schema : Schema) (settings : Settings) : Logged Header := do
  unless settings.exclusion.isEmpty do
    Logged.note (.excluding settings.exclusion.tags)
  Logged.note (.generating schema.catalogue.size)
  let prototypes ← .lift (schema.prototypes settings)
  let constants ← .lift (schema.constants settings)
  let aliases ← schema.aliases settings
  let chainLinks ← schema.chainLinks
  let records ← schema.records settings
  Logged.note (.recordCount schema.links.size)
  Logged.note (.prototypeCount prototypes.length)
  return {
    constants
    handles := schema.handles settings
    forwards := schema.forwards settings
    enumerations := schema.enumerations settings
    aliases
    chainLinks
    records
    prototypes }

def headerText (schema : Schema) (settings : Settings) : Logged String :=
  Header.text settings <$> schema.header settings

end Schema

/-- The header for the text of a description. -/
def headerOfText (text : String) (settings : Settings) : Logged String :=
  match Schema.read text settings.typePrefix with
  | .ok schema => schema.headerText settings
  | .error e => .lift (.error (.schema e))

/-- The header for a description in a file. What is wrong with the text itself
is told apart from what is wrong with the schema. -/
def headerOfFile (contents : Except FileFailure String) (settings : Settings) : Logged String :=
  match contents with
  | .error failure => .lift (.error (.document (.unreadable failure)))
  | .ok text =>
    match Document.read text with
    | .error e => .lift (.error (.document e))
    | .ok document =>
      match Schema.ofDocument document settings.typePrefix with
      | .ok schema => schema.headerText settings
      | .error e => .lift (.error (.schema e))

end ApiHeader
