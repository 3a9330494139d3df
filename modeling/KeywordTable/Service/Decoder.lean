import KeywordTable.Json.Reading
import KeywordTable.Plain.Literal

/-!
# Decoders

How the parts of an answer are understood.  A decoder is told how many levels of
arrays and objects it may still go down.  It understands a value, or it finds a null
where a value could be, or it does not understand what it is given, and then the
whole answer cannot be understood.

* A null stands for nothing.  It is a member that might as well be missing, but as
  an element of an array or as a field of a map it is not understood.
* An object may say more than is known about.  Such a member is passed over: all
  that is asked of it is that its numbers are numbers and that it does not nest too
  deep.
* A member that is given twice must be understood both times, and the last time
  counts.

Texts are resolved when they are understood.  Bytes are read off the spelling as it
stands, since none of their digits needs an escape.
-/

namespace KeywordTable

/-- How many levels deep an answer is understood. -/
def understoodLevels : Nat := 128

/-- How many levels deep a part of an answer may go that is passed over. -/
def passedLevels : Nat := 512

namespace Spelling

/-- Is this a number?  Digits alone must be one that 64 bits can hold, whatever the
sign; with a point or an exponent it may be of any size. -/
def isAnswerNumber (literal : String) : Bool :=
  let digits := (Decimal.readSign literal.toList).2
  if digits.all Char.isDigit then
    !digits.isEmpty && IntegerRange.unsigned64.contains (Decimal.natOfDigits digits)
  else (Decimal.ofText? literal).isSome

/-- May this be passed over, when it may go down so many levels? -/
def canPass : Nat → Spelling → Bool
  | _, .null | _, .bool _ | _, .text _ => true
  | _, .number literal => isAnswerNumber literal
  | 0, .array _ | 0, .object _ => false
  | levels + 1, .array elements => elements.all (canPass levels)
  | levels + 1, .object members => members.all fun member => canPass levels member.2

/-- The members of an object, their names resolved. -/
def members? : Spelling → Option (List (String × Spelling))
  | .object members => members.mapM fun (name, value) => do return (← Json.unescape? name, value)
  | _ => none

end Spelling

/-- What a decoder makes of a part of an answer, given the levels that are left:
`none` when it is not understood, `some none` when it is a null. -/
abbrev Decoder (α : Type) := Nat → Spelling → Option (Option α)

namespace Decoder

/-- What must be understood and must not be null. -/
def required {α : Type} (decoder : Decoder α) (levels : Nat) (part : Spelling) : Option α :=
  (decoder levels part).join

/-- What is on the next level down, if there is one. -/
def below {α : Type} (inside : Nat → Spelling → Option α) : Decoder α
  | 0, _ => none
  | _ + 1, .null => some none
  | levels + 1, part => (inside levels part).map some

/-- A text. -/
def text : Decoder String
  | _, .null => some none
  | _, .text inside => (Json.unescape? inside).map some
  | _, _ => none

/-- A truth value. -/
def bool : Decoder Bool
  | _, .null => some none
  | _, .bool flag => some (some flag)
  | _, _ => none

/-- A byte string. -/
def bytes : Decoder Bytes
  | _, .null => some none
  | _, .text inside => (Bytes.ofBase64? inside).map some
  | _, _ => none

/-- The integer that a double is, if it is one within the bounds. -/
def integerOfDouble? (range : IntegerRange) (x : Double) : Option Int := do
  let (n, d) := Double.scaleDown x.mantissa 1 (-x.exponent)
  let n : Int := if x.negative then -(n : Int) else n
  if n % d = 0 ∧ range.contains (n / d) then some (n / d) else none

/-- The integer that a literal spells, if it is one within the bounds; a literal with
a point or an exponent spells one when the nearest double is one. -/
def integerOfLiteral? (range : IntegerRange) (literal : String) : Option Int :=
  match range.read literal with
  | .ok n => some n
  | .error _ => do
    if literal.toList.all fun c => c.isDigit || c == '-' then none
    else integerOfDouble? range (← (← Decimal.ofText? literal).toDouble?)

/-- A number of 32 bits. -/
def integer : Decoder Int32
  | _, .null => some none
  | _, .number literal => (integerOfLiteral? .signed32 literal).map fun n => some (.ofInt n)
  | _, _ => none

/-- A measure: a number, or the text of an infinity or of what is no number. -/
def measure : Decoder Numeral
  | _, .null => some none
  | _, .number literal =>
    if Spelling.isAnswerNumber literal then (Numeral.ofText? literal).map some else none
  | _, .text inside => do
    let numeral ← Numeral.ofText? (← Json.unescape? inside)
    if numeral.isFinite then none else some (some numeral)
  | _, _ => none

/-- An array whose elements are understood one by one. -/
def listOf {α : Type} (element : Decoder α) : Decoder (List α) :=
  below fun levels part =>
    match part with
    | .array elements => elements.mapM (element.required levels)
    | _ => none

/-- A map whose fields are understood one by one. -/
def fieldsOf {α : Type} (field : Decoder α) : Decoder (Fields α) :=
  below fun levels part => do
    let fields ← (← part.members?).mapM fun (name, value) => do
      return (name, ← field.required levels value)
    return Fields.canonical fields

/-- A member that is known about: what it changes in what is understood so far. -/
structure Member (α : Type) where
  name : String
  read : Nat → Spelling → Option (α → α)

/-- A member that is kept. -/
def Member.kept {α β : Type} (name : String) (decoder : Decoder β) (keep : α → Option β → α) :
    Member α where
  name
  read levels part := (decoder levels part).map fun found record => keep record found

/-- A member that must be understood and is then forgotten. -/
def Member.checked {α β : Type} (name : String) (decoder : Decoder β) : Member α where
  name
  read levels part := (decoder levels part).map fun _ => id

/-- An object with these members, all of which may be missing. -/
def record {α : Type} (start : α) (members : List (Member α)) : Decoder α :=
  below fun levels part => do
    (← part.members?).foldlM (fun record (name, value) =>
      match members.find? (·.name == name) with
      | some member => (member.read levels value).map (· record)
      | none => if value.canPass passedLevels then some record else none) start

end Decoder

end KeywordTable
