/-!
# Decimal numerals and doubles

Numbers travel as text: an optional sign, digits with an optional point among
them, and an optional exponent.  A numeral denotes `± coefficient · 10 ^ exponent`
exactly, however long it is.  A finite double is `± mantissa · 2 ^ exponent` with a
mantissa below `2 ^ 53` and an exponent from `-1074` to `971`.  Both directions
between doubles and decimal text are computed on natural numbers, without rounding
on the way.

* `Decimal.vanishes` says that the double nearest to a numeral is zero, which is so
  up to half of the smallest positive double, `2⁻¹⁰⁷⁵`, included.
* `Double.nearest?` rounds a quotient of naturals to the nearest double, a tie to
  the even mantissa; a number beyond the largest double has none.
* `Double.shortest` finds the decimal with the fewest digits that rounds to the
  double: grids of powers of ten are tried from coarse to fine, and on the first
  grid with a point that rounds to the double the nearer such point is taken, of
  two equally near ones the larger.
* `Double.text` writes that decimal without an exponent and without a point that
  has nothing behind it.
-/

namespace KeywordTable

/-- The number `± coefficient · 10 ^ exponent`. -/
structure Decimal where
  negative : Bool
  coefficient : Nat
  exponent : Int
deriving DecidableEq

namespace Decimal

/-- The number a run of digits denotes. -/
def natOfDigits (digits : List Char) : Nat :=
  digits.foldl (fun n c => 10 * n + (c.toNat - '0'.toNat)) 0

/-- How many digits a number is written with. -/
def digitCount (n : Nat) : Nat := (Nat.toDigits 10 n).length

/-- An optional sign: is it a minus, and what follows it. -/
def readSign : List Char → Bool × List Char
  | '-' :: rest => (true, rest)
  | '+' :: rest => (false, rest)
  | rest => (false, rest)

/-- The leading digits and what follows them. -/
def readDigits (cs : List Char) : List Char × List Char :=
  (cs.takeWhile Char.isDigit, cs.dropWhile Char.isDigit)

/-- An integer with an optional sign and nothing behind it. -/
def readInteger? (cs : List Char) : Option Int :=
  let (negative, rest) := readSign cs
  if rest = [] ∨ rest.any (fun c => !c.isDigit) then none
  else if negative then some (-(natOfDigits rest : Int))
  else some (natOfDigits rest)

/-- The digits behind an optional point, and what follows them. -/
def readFraction : List Char → List Char × List Char
  | '.' :: rest => readDigits rest
  | rest => ([], rest)

/-- An optional exponent with nothing behind it. -/
def readExponent? : List Char → Option Int
  | [] => some 0
  | c :: rest => if c = 'e' ∨ c = 'E' then readInteger? rest else none

/-- The numeral a text spells; there must be a digit in front of the exponent. -/
def ofChars? (cs : List Char) : Option Decimal :=
  let (negative, unsigned) := readSign cs
  let (whole, afterWhole) := readDigits unsigned
  let (fraction, afterFraction) := readFraction afterWhole
  if whole ++ fraction = [] then none
  else
    (readExponent? afterFraction).map fun exponent =>
      { negative
        coefficient := natOfDigits (whole ++ fraction)
        exponent := exponent - fraction.length }

/-- The numeral a text spells. -/
def ofText? (text : String) : Option Decimal := ofChars? text.toList

/-- Is the nearest double zero?  Half of the smallest positive double still is.
A coefficient that ends far behind the point is small whatever its digits. -/
def vanishes (decimal : Decimal) : Bool :=
  let places := (-decimal.exponent).toNat
  decimal.coefficient == 0 ||
    decide (digitCount decimal.coefficient + 324 ≤ places) ||
    (decide (0 < places) && decide (decimal.coefficient * Nat.pow 2 1075 ≤ Nat.pow 10 places))

end Decimal

/-! ### Doubles -/

/-- A finite double, `± mantissa · 2 ^ exponent`. -/
structure Double where
  negative : Bool
  mantissa : Nat
  exponent : Int
deriving DecidableEq

namespace Double

/-- The least exponent of a double. -/
def minExponent : Int := -1074

/-- The greatest exponent of a double. -/
def maxExponent : Int := 971

/-- The zero of either sign. -/
def zero (negative : Bool) : Double := ⟨negative, 0, minExponent⟩

/-- The quotient `n · 2 ^ -power / d` as numerator and denominator. -/
def scaleDown (n d : Nat) (power : Int) : Nat × Nat :=
  if 0 ≤ power then (n, d * Nat.pow 2 power.toNat) else (n * Nat.pow 2 (-power).toNat, d)

/-- The quotient `n · 10 ^ -power / d` as numerator and denominator. -/
def scaleDownTen (n d : Nat) (power : Int) : Nat × Nat :=
  if 0 ≤ power then (n, d * Nat.pow 10 power.toNat) else (n * Nat.pow 10 (-power).toNat, d)

/-- The integer nearest to `n / d`, a tie to the even one. -/
def roundToEven (n d : Nat) : Nat :=
  let floor := n / d
  let twice := 2 * (n % d)
  if d < twice ∨ (twice = d ∧ floor % 2 = 1) then floor + 1 else floor

/-- The power of two at or below the positive quotient `n / d`. -/
def binaryOrder (n d : Nat) : Int :=
  let guess : Int := (Nat.log2 n : Int) - Nat.log2 d
  let (a, b) := scaleDown n d guess
  if a < b then guess - 1 else guess

/-- The double nearest to `± n / d`; none when the quotient is too large. -/
def nearest? (negative : Bool) (n d : Nat) : Option Double :=
  if n = 0 then some (zero negative)
  else
    let exponent := max (binaryOrder n d - 52) minExponent
    let (a, b) := scaleDown n d exponent
    let mantissa := roundToEven a b
    let rounded : Double :=
      if mantissa = Nat.pow 2 53 then ⟨negative, Nat.pow 2 52, exponent + 1⟩
      else ⟨negative, mantissa, exponent⟩
    if rounded.exponent ≤ maxExponent then some rounded else none

/-- The points of a grid next to a double that round to it: the double is
`middle / 4` units of `2 ^ exponent`, and the decimals strictly between `low / 4`
and `high / 4` round to it; the ends do so as well when the mantissa is even. -/
structure Neighbourhood where
  low : Nat
  middle : Nat
  high : Nat
  closed : Bool

/-- What rounds to a double.  The gap below a power of two is half the gap above. -/
def neighbourhood (x : Double) : Neighbourhood :=
  let narrow := x.mantissa == Nat.pow 2 52 && x.exponent != minExponent
  { low := 4 * x.mantissa - (if narrow then 1 else 2)
    middle := 4 * x.mantissa
    high := 4 * x.mantissa + 2
    closed := x.mantissa % 2 == 0 }

/-- The coefficient on the grid `10 ^ power` that is taken for a double, if one
of the two grid points around the double rounds to it. -/
def gridPoint? (x : Double) (power : Int) : Option Nat :=
  let around := x.neighbourhood
  let (n, d) := scaleDown 1 4 (-x.exponent)
  let (n, d) := scaleDownTen n d power
  let within (c : Nat) : Bool :=
    if around.closed then decide (around.low * n ≤ c * d) && decide (c * d ≤ around.high * n)
    else decide (around.low * n < c * d) && decide (c * d < around.high * n)
  let floor := around.middle * n / d
  let upper := decide (d ≤ 2 * (around.middle * n % d))
  match within floor, within (floor + 1) with
  | true, true => some (if upper then floor + 1 else floor)
  | true, false => some floor
  | false, true => some (floor + 1)
  | false, false => none

/-- The first grid with a point, going from coarse to fine. -/
def searchGrid (x : Double) : Nat → Int → Decimal
  | 0, power => ⟨x.negative, (x.gridPoint? power).getD 0, power⟩
  | n + 1, power =>
    match x.gridPoint? power with
    | some coefficient => ⟨x.negative, coefficient, power⟩
    | none => searchGrid x n (power - 1)

/-- A power of ten above which no grid has a point next to the double. -/
def decimalOrder (x : Double) : Int :=
  let (n, d) := scaleDown x.mantissa 1 (-x.exponent)
  if d ≤ n then Decimal.digitCount (n / d) else 1 - (Decimal.digitCount (d / n) : Int)

/-- The decimal with the fewest digits that rounds to the double. -/
def shortest (x : Double) : Decimal :=
  if x.mantissa = 0 then ⟨x.negative, 0, 0⟩ else x.searchGrid 20 x.decimalOrder

end Double

namespace Decimal

/-- The double nearest to a numeral; none when the numeral is too large.  Far
outside of the doubles' range only the order of magnitude matters. -/
def toDouble? (decimal : Decimal) : Option Double :=
  let order := decimal.exponent + digitCount decimal.coefficient
  if decimal.coefficient = 0 ∨ order < -330 then some (.zero decimal.negative)
  else if 330 < order then none
  else
    let (n, d) := Double.scaleDownTen decimal.coefficient 1 (-decimal.exponent)
    Double.nearest? decimal.negative n d

/-- The digits of a numeral with a point where the exponent puts it. -/
def positional (decimal : Decimal) : String :=
  let digits := Nat.toDigits 10 decimal.coefficient
  let sign := if decimal.negative then ['-'] else []
  let places := (-decimal.exponent).toNat
  let body :=
    if 0 ≤ decimal.exponent then
      if decimal.coefficient = 0 then digits
      else digits ++ List.replicate decimal.exponent.toNat '0'
    else if places < digits.length then
      digits.take (digits.length - places) ++ '.' :: digits.drop (digits.length - places)
    else '0' :: '.' :: (List.replicate (places - digits.length) '0' ++ digits)
  String.ofList (sign ++ body)

end Decimal

/-- The double in as few digits as tell it from every other, without an exponent. -/
def Double.text (x : Double) : String := x.shortest.positional

end KeywordTable
