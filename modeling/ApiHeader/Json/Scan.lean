import ApiHeader.Json.Value

/-!
# Scanners

A scanner reads something off the front of a text. `Taken` is what it read and
what is left; the rest is shorter, so that a scanner can be repeated until the
text ends. `Passed` is the same for what may be empty. `skipSpace` drops the
four characters that may stand between the tokens of a JSON text.

`scanSpelling` reads the parts of a number, and `Spelling.number` gives them a
value. Digits are gathered into a word of 64 bits; digits that no longer fit only
move the decimal point. A number with neither point nor exponent whose digits all
fit is an integer, every other one a double.

`scanString` reads a string from behind its opening quote to behind its closing
one. `scanEscape` reads what stands behind a backslash; characters beyond the
first plane are written there as two surrogates (`scanCodePoint`).
-/

set_option autoImplicit false
set_option relaxedAutoImplicit false

namespace ApiHeader.Json

/-! ### Scanners -/

/-- A value read off the front of `s`, and what follows it. -/
structure Taken (α : Type) (s : List Char) where
  value : α
  rest : List Char
  shorter : rest.length < s.length

/-- A value read off the front of `s`, where it may take no place at all. -/
structure Passed (α : Type) (s : List Char) where
  value : α
  rest : List Char
  notLonger : rest.length ≤ s.length

/-- Reads something off the front of every text, and at least one character. -/
abbrev Scan (α : Type) : Type :=
  (s : List Char) → Except Fault (Taken α s)

/-- What was read off a shorter text was read off the longer one too. -/
def Taken.widen {α : Type} {s t : List Char} (x : Taken α s) (h : s.length ≤ t.length) :
    Taken α t :=
  ⟨x.value, x.rest, Nat.lt_of_lt_of_le x.shorter h⟩

def Taken.map {α β : Type} {s : List Char} (f : α → β) (x : Taken α s) : Taken β s :=
  ⟨f x.value, x.rest, x.shorter⟩

theorem length_le_self (s : List Char) : s.length ≤ s.length :=
  Nat.le_refl _

theorem length_lt_cons (c : Char) (s : List Char) : s.length < (c :: s).length :=
  Nat.lt_succ_self _

theorem length_le_cons (c : Char) (s : List Char) : s.length ≤ (c :: s).length :=
  Nat.le_succ _

theorem length_lt_cons_of_lt {s t : List Char} (c : Char) (h : s.length < t.length) :
    s.length < (c :: t).length :=
  Nat.lt_succ_of_lt h

/-! ### Space between tokens -/

def isSpace (c : Char) : Bool :=
  c = ' ' || c = '\t' || c = '\n' || c = '\r'

def skipSpace (s : List Char) : List Char :=
  s.dropWhile isSpace

theorem length_dropWhile_le (p : Char → Bool) (s : List Char) :
    (s.dropWhile p).length ≤ s.length :=
  (List.dropWhile_suffix p).length_le

theorem length_skipSpace_le (s : List Char) : (skipSpace s).length ≤ s.length :=
  length_dropWhile_le isSpace s

theorem length_cons_le_of_skipSpace {s rest : List Char} {c : Char}
    (h : skipSpace s = c :: rest) : (c :: rest).length ≤ s.length := by
  rw [← h]
  exact length_skipSpace_le s

theorem length_lt_of_skipSpace {s rest : List Char} {c : Char} (h : skipSpace s = c :: rest) :
    rest.length < s.length :=
  Nat.lt_of_lt_of_le (length_lt_cons c rest) (length_cons_le_of_skipSpace h)

/-! ### Numbers -/

def isDigit (c : Char) : Bool :=
  '0' ≤ c && c ≤ '9'

def digitValue (c : Char) : Nat :=
  c.toNat - '0'.toNat

/-- The parts of a number without its sign. An exponent is a sign, which says
whether it is negative, and digits. -/
structure Spelling where
  integer : List Char
  fraction : Option (List Char)
  exponent : Option (Bool × List Char)
  deriving DecidableEq, Repr

/-! ### Reading the parts -/

def takeDigits (s : List Char) : Passed (List Char) s :=
  ⟨s.takeWhile isDigit, s.dropWhile isDigit, length_dropWhile_le isDigit s⟩

/-- The digits before the point: a zero stands alone. -/
def scanInteger : Scan (List Char)
  | [] => .error (.before .endInValue [])
  | '0' :: rest =>
    if rest.head?.any isDigit then .error (.within .invalidNumber rest)
    else .ok ⟨['0'], rest, length_lt_cons '0' rest⟩
  | c :: rest =>
    if isDigit c then
      let more := takeDigits rest
      .ok ⟨c :: more.value, more.rest,
        Nat.lt_of_le_of_lt more.notLonger (length_lt_cons c rest)⟩
    else .error (.within .invalidNumber (c :: rest))

/-- A point and at least one digit, or nothing. -/
def scanFraction (s : List Char) : Except Fault (Passed (Option (List Char)) s) :=
  match s with
  | '.' :: rest =>
    let more := takeDigits rest
    if more.value.isEmpty then
      .error (.within (if rest.isEmpty then .endInValue else .invalidNumber) rest)
    else
      .ok ⟨some more.value, more.rest, Nat.le_trans more.notLonger (length_le_cons '.' rest)⟩
  | s => .ok ⟨none, s, length_le_self s⟩

/-- The sign of an exponent, if there is one. -/
def scanExponentSign (s : List Char) : Passed Bool s :=
  match s with
  | '+' :: rest => ⟨false, rest, length_le_cons '+' rest⟩
  | '-' :: rest => ⟨true, rest, length_le_cons '-' rest⟩
  | s => ⟨false, s, length_le_self s⟩

/-- The sign and the digits of an exponent, its mark already read. -/
def scanExponentDigits (s : List Char) : Except Fault (Passed (Bool × List Char) s) :=
  let sign := scanExponentSign s
  let more := takeDigits sign.rest
  if more.value.isEmpty then
    .error (if sign.rest.isEmpty then .before .endInValue [] else .within .invalidNumber sign.rest)
  else .ok ⟨(sign.value, more.value), more.rest, Nat.le_trans more.notLonger sign.notLonger⟩

/-- An exponent, or nothing. -/
def scanExponent (s : List Char) : Except Fault (Passed (Option (Bool × List Char)) s) :=
  match s with
  | c :: rest =>
    if c = 'e' ∨ c = 'E' then do
      let exponent ← scanExponentDigits rest
      return ⟨some exponent.value, exponent.rest,
        Nat.le_trans exponent.notLonger (length_le_cons c rest)⟩
    else .ok ⟨none, c :: rest, length_le_self _⟩
  | [] => .ok ⟨none, [], length_le_self []⟩

def scanSpelling : Scan Spelling := fun s ↦ do
  let integer ← scanInteger s
  let fraction ← scanFraction integer.rest
  let exponent ← scanExponent fraction.rest
  return ⟨⟨integer.value, fraction.value, exponent.value⟩, exponent.rest,
    Nat.lt_of_le_of_lt (Nat.le_trans exponent.notLonger fraction.notLonger) integer.shorter⟩

/-! ### Their value -/

/-- Words of 64 bits are below this number. -/
def wordBound : Nat := 0x10000000000000000

/-- Exponents are below this number. -/
def exponentBound : Nat := 0x80000000

/-- Integers whose magnitude is at most this number have a signed word. -/
def signedBound : Nat := 0x8000000000000000

/-- Appends digits to a significand while it fits in a word; also tells how many
digits were used. -/
def gather (significand : Nat) : List Char → Nat × Nat
  | [] => (significand, 0)
  | d :: ds =>
    let longer := significand * 10 + digitValue d
    if longer < wordBound then
      let (value, used) := gather longer ds
      (value, used + 1)
    else (significand, 0)

/-- The value of an exponent, or else the digits behind the first one that takes it
out of range. -/
def exponentValue (exponent : Nat) : List Char → Except (List Char) Nat
  | [] => .ok exponent
  | d :: ds =>
    let longer := exponent * 10 + digitValue d
    if longer < exponentBound then exponentValue longer ds else .error ds

def signedReal (negative : Bool) (x : Float) : Number :=
  .real (if negative then -x else x)

/-- An integer; a negative one without a signed word, and minus zero, are doubles. -/
def integerNumber (negative : Bool) (significand : Nat) : Number :=
  if ! negative then .natural (.ofNat significand)
  else if 0 < significand ∧ significand ≤ signedBound then .negative significand
  else signedReal true (UInt64.ofNat significand).toFloat

/-- A double; the rest tells where its spelling ends. -/
def realNumber (negative : Bool) (significand : Nat) (exponent : Int) (rest : List Char) :
    Except Fault Number :=
  match Decimal.scale? (.ofNat significand) exponent with
  | some x => .ok (signedReal negative x)
  | none => .error (.before .numberOutOfRange rest)

/-- The value of a spelling that the rest follows. An exponent out of range makes
the number zero, or is a fault right behind the digit that took it there. -/
def Spelling.number (spelling : Spelling) (negative : Bool) (rest : List Char) :
    Except Fault Number :=
  let (whole, used) := gather 0 spelling.integer
  let dropped := spelling.integer.length - used
  let (significand, appended) := gather whole (spelling.fraction.getD [])
  let point : Int := (dropped : Int) - appended
  match spelling.exponent with
  | none =>
    if spelling.fraction.isNone ∧ dropped = 0 then .ok (integerNumber negative significand)
    else realNumber negative significand point rest
  | some (down, digits) =>
    match exponentValue 0 digits with
    | .ok e => realNumber negative significand (if down then point - e else point + e) rest
    | .error left =>
      if significand ≠ 0 ∧ ! down then .error (.before .numberOutOfRange (left ++ rest))
      else .ok (signedReal negative 0)

/-- A number whose sign is already read. -/
def scanNumber (negative : Bool) : Scan Number := fun s ↦ do
  let spelling ← scanSpelling s
  let number ← spelling.value.number negative spelling.rest
  return ⟨number, spelling.rest, spelling.shorter⟩

/-! ### Strings -/

/-- The escapes that stand for one character by one letter. -/
def letterEscape? : Char → Option Char
  | '"' => some '"'
  | '\\' => some '\\'
  | '/' => some '/'
  | 'b' => some '\x08'
  | 'f' => some '\x0c'
  | 'n' => some '\n'
  | 'r' => some '\r'
  | 't' => some '\t'
  | _ => none

/-- The number that four hexadecimal digits write. -/
def hex4? (a b c d : Char) : Option Nat := do
  let a ← Text.hexDigit? a
  let b ← Text.hexDigit? b
  let c ← Text.hexDigit? c
  let d ← Text.hexDigit? d
  return ((a * 16 + b) * 16 + c) * 16 + d

/-- Four hexadecimal digits. They fill a window of four bytes, and what else stands
in that window may end inside a character. -/
def scanHex4 : Scan Nat
  | a :: b :: c :: d :: rest =>
    match hex4? a b c d with
    | some n => .ok ⟨n, rest, by simp only [List.length_cons]; omega⟩
    | none => .error ⟨.invalidEscape, byteCount (a :: b :: c :: d :: rest) - 4⟩
  | s =>
    if byteCount s < 4 then .error ⟨.endInString, 0⟩
    else .error ⟨.invalidEscape, byteCount s - 4⟩

def isHighSurrogate (n : Nat) : Bool :=
  0xD800 ≤ n && n ≤ 0xDBFF

def isLowSurrogate (n : Nat) : Bool :=
  0xDC00 ≤ n && n ≤ 0xDFFF

/-- The character of a surrogate pair. -/
def pairChar (high low : Nat) : Char :=
  Char.ofNat (0x10000 + (high - 0xD800) * 0x400 + (low - 0xDC00))

/-- The escape of the second half of a surrogate pair, backslash included. -/
def scanLowSurrogate : Scan Nat
  | '\\' :: 'u' :: s => do
    let low ← scanHex4 s
    if isLowSurrogate low.value then
      return low.widen (Nat.le_trans (length_le_cons 'u' s) (length_le_cons '\\' _))
    else .error (.before .loneSurrogate low.rest)
  | '\\' :: [] => .error (.before .endInString [])
  | '\\' :: s => .error (.within .unexpectedEndOfHexEscape s)
  | [] => .error (.before .endInString [])
  | s => .error (.within .unexpectedEndOfHexEscape s)

/-- The character behind a backslash and `u`. -/
def scanCodePoint : Scan Char := fun s ↦ do
  let unit ← scanHex4 s
  if isLowSurrogate unit.value then .error (.before .loneSurrogate unit.rest)
  else if isHighSurrogate unit.value then
    let low ← scanLowSurrogate unit.rest
    return ⟨pairChar unit.value low.value, low.rest, Nat.lt_trans low.shorter unit.shorter⟩
  else return unit.map Char.ofNat

/-- The character behind a backslash. -/
def scanEscape : Scan Char
  | [] => .error (.before .endInString [])
  | 'u' :: s => do
    let c ← scanCodePoint s
    return c.widen (length_le_cons 'u' s)
  | c :: s =>
    match letterEscape? c with
    | some meant => .ok ⟨meant, s, length_lt_cons c s⟩
    | none => .error (.within .invalidEscape (c :: s))

/-- Reads on after the characters `before`, which stand in reverse. -/
def scanStringFrom (whole before s : List Char) (h : s.length ≤ whole.length) :
    Except Fault (Taken String whole) :=
  match s with
  | [] => .error (.before .endInString [])
  | '"' :: rest =>
    .ok ⟨.ofList before.reverse, rest, Nat.lt_of_lt_of_le (length_lt_cons '"' rest) h⟩
  | '\\' :: rest =>
    match scanEscape rest with
    | .error fault => .error fault
    | .ok c =>
      scanStringFrom whole (c.value :: before) c.rest
        (Nat.le_of_lt (Nat.lt_of_lt_of_le (length_lt_cons_of_lt '\\' c.shorter) h))
  | c :: rest =>
    if c.toNat < 0x20 then .error (.within .controlCharacter (c :: rest))
    else scanStringFrom whole (c :: before) rest (Nat.le_trans (length_le_cons c rest) h)
termination_by s.length
decreasing_by
  · exact length_lt_cons_of_lt '\\' c.shorter
  · exact length_lt_cons c rest

/-- A string whose opening quote is already read. -/
def scanString : Scan String := fun s ↦
  scanStringFrom s [] s (length_le_self s)

end ApiHeader.Json
