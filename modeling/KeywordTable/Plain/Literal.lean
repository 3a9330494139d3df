import KeywordTable.Plain

/-!
# What number texts denote

The text of an attribute that is a number and the literal of a data format denote
numbers in almost the same way: digits alone are an integer when 64 bits can hold
it, signed or unsigned, and every other numeral is the nearest double.

* `IntegerRange.read` reads an integer digit by digit from the left, and the first
  digit that cannot be taken in decides what is wrong with the text: either it is no
  digit, or the number has left its bounds.
* `Numeral.ofText?` also knows an infinity, for what lies beyond all doubles, and
  words for the infinities and for what is no number, in capitals or not, which may
  carry a sign too.
* `Plain.ofLiteral?` takes a zero with a minus in front for a double, since integers
  have no negative zero, and knows no infinities.
-/

namespace KeywordTable

/-! ### Integers of bounded size -/

/-- Why a text is no integer within the bounds. -/
inductive IntegerFault where
  | empty
  | invalidDigit
  | tooLarge
  | tooSmall
deriving DecidableEq

/-- The fault in words. -/
def IntegerFault.message : IntegerFault → String
  | .empty => "cannot parse integer from empty string"
  | .invalidDigit => "invalid digit found in string"
  | .tooLarge => "number too large to fit in target type"
  | .tooSmall => "number too small to fit in target type"

/-- The integers from `low` to `high`. -/
structure IntegerRange where
  low : Int
  high : Int

namespace IntegerRange

/-- The signed integers of 64 bits. -/
def signed64 : IntegerRange := ⟨-Nat.pow 2 63, Nat.pow 2 63 - 1⟩

/-- The unsigned integers of 64 bits. -/
def unsigned64 : IntegerRange := ⟨0, Nat.pow 2 64 - 1⟩

/-- The signed integers of 32 bits. -/
def signed32 : IntegerRange := ⟨-Nat.pow 2 31, Nat.pow 2 31 - 1⟩

/-- Is the integer within the bounds? -/
def contains (range : IntegerRange) (n : Int) : Bool :=
  decide (range.low ≤ n) && decide (n ≤ range.high)

/-- Read on from the number that the digits so far denote. -/
def readFrom (range : IntegerRange) (negative : Bool) : Int → List Char → Except IntegerFault Int
  | n, [] => .ok n
  | n, c :: rest =>
    if !c.isDigit then .error .invalidDigit
    else
      let digit : Int := c.toNat - '0'.toNat
      let n := if negative then 10 * n - digit else 10 * n + digit
      if range.high < n then .error .tooLarge
      else if n < range.low then .error .tooSmall
      else range.readFrom negative n rest

/-- Read an integer with an optional plus, or an optional minus where negative
numbers are within the bounds. -/
def read (range : IntegerRange) (text : String) : Except IntegerFault Int :=
  match text.toList with
  | [] => .error .empty
  | ['+'] | ['-'] => .error .invalidDigit
  | '+' :: rest => range.readFrom false 0 rest
  | '-' :: rest => if range.low < 0 then range.readFrom true 0 rest else .error .invalidDigit
  | cs => range.readFrom false 0 cs

end IntegerRange

/-! ### Texts of numbers -/

/-- What the text of a number denotes. -/
inductive Numeral where
  | integer (n : Int)
  | double (x : Double)
  | infinite (negative : Bool)
  | undefined
deriving DecidableEq

namespace Numeral

/-- What a word denotes. -/
def ofWord? (text : String) : Option Numeral :=
  let (negative, unsigned) := Decimal.readSign text.toList
  let word := String.ofList (unsigned.map Char.toLower)
  if word = "inf" ∨ word = "infinity" then some (.infinite negative)
  else if word = "nan" then some .undefined
  else none

/-- What a decimal numeral denotes among the doubles. -/
def ofDecimal (decimal : Decimal) : Numeral :=
  match decimal.toDouble? with
  | some x => .double x
  | none => .infinite decimal.negative

/-- What a text denotes, if it is the text of a number. -/
def ofText? (text : String) : Option Numeral :=
  match IntegerRange.signed64.read text, IntegerRange.unsigned64.read text with
  | .ok n, _ | _, .ok n => some (.integer n)
  | _, _ =>
    match Decimal.ofText? text with
    | some decimal => some (ofDecimal decimal)
    | none => ofWord? text

/-- Is there a number that the numeral denotes? -/
def isFinite : Numeral → Bool
  | .integer _ | .double _ => true
  | .infinite _ | .undefined => false

end Numeral

/-! ### Literals -/

namespace Plain

/-- Can 64 bits hold the integer? -/
def fits64 (n : Int) : Bool :=
  IntegerRange.signed64.contains n || IntegerRange.unsigned64.contains n

/-- The integer that a literal spells, unless it is the negative zero. -/
def integerOfLiteral? (literal : String) : Option Int := do
  let n ← Decimal.readInteger? literal.toList
  if fits64 n && literal != "-0" then some n else none

/-- The number that a literal stands for; none when it is no number or larger than
every double. -/
def ofLiteral? (literal : String) : Option Plain :=
  match integerOfLiteral? literal with
  | some n => some (.integer n)
  | none => do
    let x ← (← Decimal.ofText? literal).toDouble?
    return .real x

end Plain

end KeywordTable
