import ApiHeader.Decimal
import ApiHeader.Text.Quoted

/-!
# JSON values, and faults of a JSON text

Values are kept as they are written: an object has its members in the order of the
text, repeated names included, and `Members.last?` is the value that counts for a
name. `Value.kind` names a value in messages.

A `Fault` is a cause and the place where it shows, known by the number of bytes
that follow it. `Fault.locate` counts line and column from the start of the text;
columns count bytes of UTF-8.
-/

set_option autoImplicit false
set_option relaxedAutoImplicit false

namespace ApiHeader.Json

/-! ### JSON values -/

/-- A number is a word of 64 bits, a negative integer, or a double. -/
inductive Number where
  | natural (n : UInt64)
  | negative (magnitude : Nat)
  | real (x : Float)

def Number.text : Number → String
  | .natural n => String.ofList (Nat.toDigits 10 n.toNat)
  | .negative n => String.ofList ('-' :: Nat.toDigits 10 n)
  | .real x => Decimal.floatText x

inductive Value where
  | null
  | bool (b : Bool)
  | number (n : Number)
  | string (s : String)
  | array (items : List Value)
  | object (members : List (String × Value))

abbrev Members := List (String × Value)

/-- The value of a name; of a repeated name the last one counts. -/
def Members.last? (members : Members) (name : String) : Option Value :=
  members.foldl (fun found (other, value) ↦ if other = name then some value else found) none

/-- The kind of a value, with its text where that is short, for use in messages. -/
def Value.kind : Value → String
  | .null => "null"
  | .bool b => if b then "boolean `true`" else "boolean `false`"
  | .number (.real x) => "floating point `" ++ (Number.real x).text ++ "`"
  | .number n => "integer `" ++ n.text ++ "`"
  | .string s => "string " ++ Text.quote s
  | .array _ => "sequence"
  | .object _ => "map"

/-! ### Faults of a JSON text -/

inductive Cause where
  | endInValue
  | endInList
  | endInObject
  | endInString
  | expectedValue
  | expectedIdent
  | expectedListCommaOrEnd
  | expectedObjectCommaOrEnd
  | expectedColon
  | keyNotString
  | trailingComma
  | trailingCharacters
  | invalidNumber
  | numberOutOfRange
  | invalidEscape
  | controlCharacter
  | loneSurrogate
  | unexpectedEndOfHexEscape
  | recursionLimit
  | notMap (kind : String)
  deriving DecidableEq, Repr

def Cause.message : Cause → String
  | .endInValue => "EOF while parsing a value"
  | .endInList => "EOF while parsing a list"
  | .endInObject => "EOF while parsing an object"
  | .endInString => "EOF while parsing a string"
  | .expectedValue => "expected value"
  | .expectedIdent => "expected ident"
  | .expectedListCommaOrEnd => "expected `,` or `]`"
  | .expectedObjectCommaOrEnd => "expected `,` or `\x7d`"
  | .expectedColon => "expected `:`"
  | .keyNotString => "key must be a string"
  | .trailingComma => "trailing comma"
  | .trailingCharacters => "trailing characters"
  | .invalidNumber => "invalid number"
  | .numberOutOfRange => "number out of range"
  | .invalidEscape => "invalid escape"
  | .controlCharacter => "control character (\\u0000-\\u001F) found while parsing a string"
  | .loneSurrogate => "lone leading surrogate in hex escape"
  | .unexpectedEndOfHexEscape => "unexpected end of hex escape"
  | .recursionLimit => "recursion limit exceeded"
  | .notMap kind => "invalid type: " ++ kind ++ ", expected a map"

/-- The length of a text in bytes of UTF-8. -/
def byteCount (cs : List Char) : Nat :=
  cs.foldl (fun count c ↦ count + c.utf8Size) 0

/-- A cause, and the number of bytes of the text after the place where it shows. -/
structure Fault where
  cause : Cause
  bytesLeft : Nat
  deriving DecidableEq, Repr

/-- A fault just before the rest of the text. -/
def Fault.before (cause : Cause) (rest : List Char) : Fault :=
  ⟨cause, byteCount rest⟩

/-- A fault at the first byte of the rest of the text, or at its end. -/
def Fault.within (cause : Cause) (rest : List Char) : Fault :=
  ⟨cause, byteCount rest - 1⟩

structure Position where
  line : Nat
  column : Nat
  deriving DecidableEq, Repr

/-- Counts lines from one, and bytes since the start of the line. -/
def Position.advance : Position → Nat → List Char → Position
  | p, _, [] => p
  | p, bytes, c :: cs =>
    if bytes = 0 then p
    else if c = '\n' then advance ⟨p.line + 1, 0⟩ (bytes - 1) cs
    else advance ⟨p.line, p.column + min bytes c.utf8Size⟩ (bytes - c.utf8Size) cs

/-- The position that is reached after so many bytes of a text. -/
def Position.after (text : List Char) (bytes : Nat) : Position :=
  Position.advance ⟨1, 0⟩ bytes text

/-- A cause with its position in a text. -/
structure Located where
  cause : Cause
  position : Position
  deriving DecidableEq, Repr

def Fault.locate (fault : Fault) (text : List Char) : Located :=
  ⟨fault.cause, .after text (byteCount text - fault.bytesLeft)⟩

def Located.message (e : Located) : String :=
  e.cause.message ++ " at line " ++ toString e.position.line ++ " column " ++
    toString e.position.column

end ApiHeader.Json
