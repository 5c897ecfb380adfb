/-!
# Words and their spellings

`isBlank` is the Unicode property `White_Space`. Blanks cut a text into `words`, and
`words_append_cons` says that words never reach across a blank. `trim` drops the
blanks at both ends.

A phrase is a text of words divided by blanks. As an identifier it is written in
one of four ways: `pascalCase` for types and functions, `camelCase` for members
and parameters, `valueCase` for the values of enumerations and `constantCase` for
macros. In the last two a hyphen divides words as well. Only the letters of ASCII
have a case.
-/

set_option autoImplicit false
set_option relaxedAutoImplicit false

namespace ApiHeader.Text

/-! ### Blanks and words -/

/-- The characters with the Unicode property `White_Space`. -/
def isBlank (c : Char) : Bool :=
  let n := c.toNat
  (9 ≤ n && n ≤ 13) || n == 0x20 || n == 0x85 || n == 0xA0 || n == 0x1680 ||
    (0x2000 ≤ n && n ≤ 0x200A) || n == 0x2028 || n == 0x2029 || n == 0x202F ||
    n == 0x205F || n == 0x3000

/-- The maximal runs of characters that are not blank, in order. -/
def words (cs : List Char) : List (List Char) :=
  (cs.splitOnP isBlank).filter (! ·.isEmpty)

@[simp] theorem words_nil : words [] = [] := rfl

/-- A blank between two texts ends the words of the first. -/
theorem words_append_cons (as bs : List Char) {c : Char} (h : isBlank c = true) :
    words (as ++ c :: bs) = words as ++ words bs := by
  simp [words, List.splitOnP_append_cons as bs h]

/-- The text without the blanks at its two ends. -/
def trim (s : String) : String :=
  .ofList ((s.toList.dropWhile isBlank).reverse.dropWhile isBlank).reverse

/-! ### Spellings of a phrase -/

def capitalize : List Char → List Char
  | [] => []
  | c :: cs => c.toUpper :: cs

def uncapitalize : List Char → List Char
  | [] => []
  | c :: cs => c.toLower :: cs

/-- A hyphen divides words just as a blank does. -/
def spaceHyphens (cs : List Char) : List Char :=
  cs.map fun c ↦ if c = '-' then ' ' else c

def pascalChars (cs : List Char) : List Char :=
  (words cs).flatMap capitalize

/-- The words capitalized and run together: `max bind groups` is `MaxBindGroups`. -/
def pascalCase (s : String) : String :=
  .ofList (pascalChars s.toList)

/-- Pascal case with a small first letter: `max bind groups` is `maxBindGroups`. -/
def camelCase (s : String) : String :=
  .ofList (uncapitalize (pascalChars s.toList))

/-- Pascal case in which hyphens divide words too: `rgba8-unorm` is `Rgba8Unorm`. -/
def valueCase (s : String) : String :=
  .ofList (pascalChars (spaceHyphens s.toList))

def upperCase (s : String) : String :=
  .ofList (s.toList.map Char.toUpper)

/-- The words in capitals, joined by underscores: `whole size` is `WHOLE_SIZE`. -/
def constantCase (s : String) : String :=
  .ofList (['_'].intercalate ((words (spaceHyphens s.toList)).map (·.map Char.toUpper)))

theorem pascalChars_append_cons (as bs : List Char) {c : Char} (h : isBlank c = true) :
    pascalChars (as ++ c :: bs) = pascalChars as ++ pascalChars bs := by
  simp [pascalChars, words_append_cons as bs h]

end ApiHeader.Text
