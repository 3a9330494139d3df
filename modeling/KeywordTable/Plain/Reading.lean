import KeywordTable.Plain.Literal

/-!
# Reading items back

An item keeps its shape when it is read back as a plain value: every attribute
becomes the plain value it stands for and a set becomes a list.  Bytes have no plain
form, and neither has a value of a kind that is not known.  A number that no finite
double can hold is null.
-/

namespace KeywordTable

/-- What the text of a number denotes, or what is wrong with it. -/
def Numeral.ofText (text : String) : Except Fault Numeral :=
  match Numeral.ofText? text with
  | some numeral => .ok numeral
  | none =>
    .error (.unserializable ("Failed to parse '" ++ text ++ "' as a float: " ++
      if text.isEmpty then "cannot parse float from empty string" else "invalid float literal"))

namespace Plain

/-- The plain value of a number; there is none beyond the finite ones. -/
def ofNumeral : Numeral → Plain
  | .integer n => .integer n
  | .double x => .real x
  | .infinite _ | .undefined => .null

/-- The plain value that the text of a number stands for. -/
def ofDigits (text : String) : Except Fault Plain := (Numeral.ofText text).map ofNumeral

/-- Bytes have no plain form to be read back as. -/
def noBytes {α : Type} : Except Fault α :=
  .error (.unserializable "invalid type: byte array, expected any valid JSON value")

mutual

/-- The plain value that an attribute stands for. -/
def ofValue : Value → Except Fault Plain
  | .text content => return .text content
  | .number digits => ofDigits digits
  | .bytes _ => noBytes
  | .bool flag => return .bool flag
  | .null true => return .null
  | .null false => throw (.unserializable "Expected unit")
  | .textSet members => return .list (members.map .text)
  | .numberSet members => return .list (← members.mapM ofDigits)
  | .bytesSet members => if members.isEmpty then return .list [] else noBytes
  | .list elements => return .list (← ofElements elements)
  | .map members => return .fields (← ofFields members)
  | .unknown => throw (.unserializable "Unknown attribute value")

/-- The plain values that the elements of a list stand for. -/
def ofElements : List Value → Except Fault (List Plain)
  | [] => return []
  | value :: rest => do
    let plain ← ofValue value
    return plain :: (← ofElements rest)

/-- The plain values that named attributes stand for. -/
def ofFields : List (String × Value) → Except Fault (List (String × Plain))
  | [] => return []
  | (name, value) :: rest => do
    let plain ← ofValue value
    return (name, plain) :: (← ofFields rest)

end

/-- The plain value that an item stands for. -/
def ofItem (item : Item) : Except Fault Plain := ofValue (.map item)

end Plain

end KeywordTable
