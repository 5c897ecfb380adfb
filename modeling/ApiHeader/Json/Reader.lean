import ApiHeader.Json.Scan

/-!
# Reading a JSON text

`readMembers` reads a text whose outermost value is an object and gives its
members as they are written. Lists and objects are the same but for their
brackets and their items (`Brackets`). Nesting is bounded (`maxDepth`), and the
bound is what the recursion of `scanValue` runs on.
-/

set_option autoImplicit false
set_option relaxedAutoImplicit false

namespace ApiHeader.Json

/-- The letters of a word that must stand at the front of the text. -/
def scanWord : List Char → (s : List Char) → Except Fault (Passed Unit s)
  | [], s => .ok ⟨(), s, length_le_self s⟩
  | _ :: _, [] => .error (.before .endInValue [])
  | letter :: letters, c :: s =>
    if c = letter then do
      let passed ← scanWord letters s
      return ⟨(), passed.rest, Nat.le_trans passed.notLonger (length_le_cons c s)⟩
    else .error (.within .expectedIdent (c :: s))

/-! ### Items between brackets -/

/-- The place before an item of a list or an object: the start of the item, or the
rest behind the closing bracket. -/
inductive ItemStart (s : List Char) where
  | item (rest : List Char) (notLonger : rest.length ≤ s.length)
  | done (rest : List Char) (shorter : rest.length < s.length)

/-- Closing bracket and faults of a kind of bracketed list. -/
structure Brackets where
  close : Char
  unclosed : Cause
  expectedComma : Cause

namespace Brackets

def list : Brackets := ⟨']', .endInList, .expectedListCommaOrEnd⟩

def object : Brackets := ⟨'\x7d', .endInObject, .expectedObjectCommaOrEnd⟩

/-- Passes the comma before every item but the first. -/
def scanStart (b : Brackets) (first : Bool) (s : List Char) : Except Fault (ItemStart s) :=
  match h : skipSpace s with
  | [] => .error (.within b.unclosed [])
  | c :: rest =>
    if c = b.close then .ok (.done rest (length_lt_of_skipSpace h))
    else if first then .ok (.item (c :: rest) (length_cons_le_of_skipSpace h))
    else if c = ',' then
      match h' : skipSpace rest with
      | [] => .error (.within .endInValue [])
      | d :: rest' =>
        if d = b.close then .error (.within .trailingComma (d :: rest'))
        else
          .ok (.item (d :: rest') (Nat.le_trans (length_cons_le_of_skipSpace h')
            (Nat.le_of_lt (length_lt_of_skipSpace h))))
    else .error (.within b.expectedComma (c :: rest))

/-- Reads items up to the closing bracket; those read so far stand in reverse. -/
def scanItems {α : Type} (b : Brackets) (item : Scan α) (whole : List Char)
    (before : List α) (s : List Char) (h : s.length ≤ whole.length) :
    Except Fault (Taken (List α) whole) :=
  match b.scanStart before.isEmpty s with
  | .error fault => .error fault
  | .ok (.done rest shorter) => .ok ⟨before.reverse, rest, Nat.lt_of_lt_of_le shorter h⟩
  | .ok (.item start notLonger) =>
    match item start with
    | .error fault => .error fault
    | .ok taken =>
      have : taken.rest.length < s.length := Nat.lt_of_lt_of_le taken.shorter notLonger
      scanItems b item whole (taken.value :: before) taken.rest
        (Nat.le_of_lt (Nat.lt_of_lt_of_le this h))
termination_by s.length

/-- The items behind an opening bracket, up to and with the closing one. -/
def scan {α : Type} (b : Brackets) (item : Scan α) : Scan (List α) := fun s ↦
  b.scanItems item s [] s (length_le_self s)

end Brackets

/-- A name, a colon and a value. -/
def scanMember (value : Scan Value) : Scan (String × Value)
  | '"' :: s => do
    let name ← scanString s
    match h : skipSpace name.rest with
    | [] => .error (.within .endInObject [])
    | c :: rest =>
      if c = ':' then
        let taken ← value rest
        have : taken.rest.length < name.rest.length :=
          Nat.lt_trans taken.shorter (length_lt_of_skipSpace h)
        return ⟨(name.value, taken.value), taken.rest,
          Nat.lt_trans (Nat.lt_trans this name.shorter) (length_lt_cons '"' s)⟩
      else .error (.within .expectedColon (c :: rest))
  | s => .error (.within .keyNotString s)

/-! ### Values -/

/-- The value that a first character begins, already read. Inside brackets stands
what `nested` reads; without it no bracket may open. -/
def scanValueAt (nested : Option (Scan Value)) (c : Char) (rest : List Char) :
    Except Fault (Passed Value rest) :=
  let word (value : Value) (letters : List Char) : Except Fault (Passed Value rest) := do
    let passed ← scanWord letters rest
    return ⟨value, passed.rest, passed.notLonger⟩
  let behind {α : Type} (f : α → Value) (scan : Scan α) : Except Fault (Passed Value rest) := do
    let taken ← scan rest
    return ⟨f taken.value, taken.rest, Nat.le_of_lt taken.shorter⟩
  let bracketed {α : Type} (b : Brackets) (f : List α → Value) (item : Scan Value → Scan α) :
      Except Fault (Passed Value rest) :=
    match nested with
    | none => .error (.within .recursionLimit (c :: rest))
    | some value => behind f (b.scan (item value))
  match c with
  | 'n' => word .null ['u', 'l', 'l']
  | 't' => word (.bool true) ['r', 'u', 'e']
  | 'f' => word (.bool false) ['a', 'l', 's', 'e']
  | '"' => behind .string scanString
  | '[' => bracketed .list .array id
  | '\x7b' => bracketed .object .object scanMember
  | '-' => behind .number (scanNumber true)
  | c =>
    if isDigit c then do
      let taken ← scanNumber false (c :: rest)
      return ⟨.number taken.value, taken.rest, Nat.le_of_lt_succ taken.shorter⟩
    else .error (.within .expectedValue (c :: rest))

/-- A value inside which brackets nest at most `depth` deep. -/
def scanValue (depth : Nat) : Scan Value := fun s ↦
  match h : skipSpace s with
  | [] => .error (.within .endInValue [])
  | c :: rest =>
    let nested : Option (Scan Value) :=
      match depth with
      | 0 => none
      | depth + 1 => some (scanValue depth)
    match scanValueAt nested c rest with
    | .error fault => .error fault
    | .ok passed =>
      .ok ⟨passed.value, passed.rest, Nat.lt_of_le_of_lt passed.notLonger (length_lt_of_skipSpace h)⟩

/-! ### Documents -/

/-- The depth to which brackets may nest, those of the document counted. -/
def maxDepth : Nat := 127

/-- The members of an outermost object. -/
def scanDocument (text : List Char) : Except Fault Members :=
  match skipSpace text with
  | [] => .error (.within .endInValue [])
  | '\x7b' :: s => do
    let taken ← Brackets.object.scan (scanMember (scanValue (maxDepth - 1))) s
    match skipSpace taken.rest with
    | [] => return taken.value
    | rest => .error (.within .trailingCharacters rest)
  | '[' :: s => .error (.before (.notMap "sequence") ('[' :: s))
  | s => do
    let taken ← scanValue maxDepth s
    .error (.before (.notMap taken.value.kind) taken.rest)

/-- The members of the object that a text holds, or what is wrong with the text. -/
def readMembers (text : String) : Except Located Members :=
  match scanDocument text.toList with
  | .ok members => .ok members
  | .error fault => .error (fault.locate text.toList)

end ApiHeader.Json
