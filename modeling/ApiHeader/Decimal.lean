/-!
# Decimals and doubles

A double stands for all reals that round to it. `Binary.shortest` is a decimal
with the fewest digits among those, and of these the one closest to the double.
For each number of digits `Binary.onGrid` looks at the two neighbours of the
double among the decimals with so many digits; all comparisons are of natural
numbers. `floatText` writes a finite double with the digits of its shortest numeral:
positionally when the exponent of the first digit lies in the range of a `Layout`,
and else with a power of ten.

`scale?` goes the other way and turns a significand and a decimal exponent into a
double. It rounds once for the significand and once for each multiplication or
division by a power of ten, so that the result need not be the nearest double.
-/

set_option autoImplicit false
set_option relaxedAutoImplicit false

namespace ApiHeader.Decimal

/-! ### The shortest numeral of a double -/

/-- The real number `mantissa * 2 ^ exponent`, as a double precision format holds
it. `narrow` says that the next smaller number is only half as far away as the
next larger one. -/
structure Binary where
  mantissa : Nat
  exponent : Int
  narrow : Bool
  deriving DecidableEq, Repr

/-- The decimal `digits * 10 ^ exponent`. -/
structure Numeral where
  digits : Nat
  exponent : Int
  deriving DecidableEq, Repr

/-- The bits of a double below its exponent make a fraction of this unit. -/
def fractionUnit : Nat := 0x10000000000000

/-- The exponents of doubles are stored modulo this number. -/
def exponentRange : Nat := 0x800

/-- The absolute value of a finite double. -/
def Binary.ofFloat (x : Float) : Binary :=
  let bits := x.toBits.toNat
  let field := bits / fractionUnit % exponentRange
  let fraction := bits % fractionUnit
  if field = 0 then ⟨fraction, -1074, false⟩
  else ⟨fractionUnit + fraction, (field : Int) - 1075, fraction = 0 && 1 < field⟩

def digitCount (n : Nat) : Nat :=
  (Nat.toDigits 10 n).length

/-- The exponent of the first decimal digit of a positive number: the largest `e`
with `10 ^ e` not above it. -/
def Binary.leading (x : Binary) : Int :=
  let num := x.mantissa * Nat.pow 2 x.exponent.toNat
  let den := Nat.pow 2 (-x.exponent).toNat
  if den ≤ num then (digitCount (num / den) : Int) - 1
  else
    let reciprocal := (den + num - 1) / num
    Int.negOfNat (digitCount (reciprocal - 1))

/-- The decimal on the grid of multiples of `10 ^ e` that rounds to `x` and is
closest to it, if there is one; a tie goes to the even multiple. All numbers are
compared as multiples of a quarter of the binary unit. -/
def Binary.onGrid (x : Binary) (e : Int) : Option Numeral :=
  let up := Nat.pow 2 (x.exponent - 2).toNat * Nat.pow 10 (-e).toNat
  let den := Nat.pow 2 (2 - x.exponent).toNat * Nat.pow 10 e.toNat
  let num := 4 * x.mantissa * up
  let low := (if x.narrow then 4 * x.mantissa - 1 else 4 * x.mantissa - 2) * up
  let high := (4 * x.mantissa + 2) * up
  let holds (d : Nat) : Bool :=
    if x.mantissa % 2 = 0 then low ≤ d * den && d * den ≤ high
    else low < d * den && d * den < high
  let below := num / den
  let above := below + 1
  let nearer : Nat :=
    if 2 * num < (below + above) * den then below
    else if (below + above) * den < 2 * num then above
    else if below % 2 = 0 then below else above
  match holds below, holds above with
  | true, true => some ⟨nearer, e⟩
  | true, false => some ⟨below, e⟩
  | false, true => some ⟨above, e⟩
  | false, false => none

/-- Seventeen digits tell all doubles apart, so that a positive double always has
such a numeral. -/
def Binary.shortest (x : Binary) : Numeral :=
  let first := x.leading
  ((List.range 17).findSome? fun n : Nat ↦ x.onGrid (first - n)).getD ⟨x.mantissa, x.exponent⟩

/-! ### Writing a double -/

/-- The exponents of the first digit for which a number is written positionally. -/
structure Layout where
  lowest : Int
  highest : Int

/-- Numbers from `0.00001` up to sixteen digits before the point are positional. -/
def Layout.standard : Layout := ⟨-5, 15⟩

/-- The digits without trailing zeros, and the exponent of the first one. -/
def Numeral.significant (n : Numeral) : List Char × Int :=
  let all := Nat.toDigits 10 n.digits
  let kept := (all.reverse.dropWhile (· = '0')).reverse
  (kept, n.exponent + all.length - 1)

/-- Digits around a point, with at least one digit on either side. -/
def positional (digits : List Char) (first : Int) : List Char :=
  if 0 ≤ first then
    let count := first.toNat + 1
    let fraction := digits.drop count
    (digits.take count).rightpad count '0' ++ '.' :: (if fraction = [] then ['0'] else fraction)
  else
    '0' :: '.' :: (List.replicate ((-first).toNat - 1) '0' ++ digits)

/-- One digit, the others after a point if there are any, and the exponent with its sign. -/
def scientific (digits : List Char) (first : Int) : List Char :=
  let fraction := digits.drop 1
  let point := if fraction = [] then [] else '.' :: fraction
  let sign := if 0 ≤ first then '+' else '-'
  digits.take 1 ++ point ++ 'e' :: sign :: Nat.toDigits 10 first.natAbs

def Numeral.chars (layout : Layout) (n : Numeral) : List Char :=
  let (digits, first) := n.significant
  if layout.lowest ≤ first ∧ first ≤ layout.highest then positional digits first
  else scientific digits first

/-- The sign of a double is its first bit. -/
def isNegative (x : Float) : Bool :=
  0x8000000000000000 ≤ x.toBits.toNat

/-- The text of a finite double; zero keeps its sign. -/
def floatText (x : Float) : String :=
  let magnitude := Binary.ofFloat x
  let chars :=
    if magnitude.mantissa = 0 then ['0', '.', '0']
    else magnitude.shortest.chars .standard
  .ofList (if isNegative x then '-' :: chars else chars)

/-! ### From decimal to double -/

/-- The largest power of ten that is a finite double has this exponent. -/
def maxPower : Nat := 308

def powerOfTen (k : Nat) : Float :=
  .ofScientific 1 false k

/-- Divides by `10 ^ k` in steps of at most the largest power. -/
def scaleDown (x : Float) (k : Nat) : Float :=
  if k ≤ maxPower then x / powerOfTen k
  else if x == 0 then x
  else scaleDown (x / powerOfTen maxPower) (k - maxPower)
termination_by k
decreasing_by simp only [maxPower] at *; omega

/-- Multiplies by `10 ^ k`; fails when the product is no finite double. -/
def scaleUp? (x : Float) (k : Nat) : Option Float :=
  if k ≤ maxPower then
    let product := x * powerOfTen k
    if product.isInf then none else some product
  else if x == 0 then some x
  else none

/-- The double for `significand * 10 ^ exponent`, if it is in range. -/
def scale? (significand : UInt64) (exponent : Int) : Option Float :=
  if 0 ≤ exponent then scaleUp? significand.toFloat exponent.toNat
  else some (scaleDown significand.toFloat (-exponent).toNat)

end ApiHeader.Decimal
