import KeywordTable.Plain.Reading

/-!
# Items as records

An item can be read as a record, field by field against a list of fields that the
caller expects.  Attributes that no field asks for are passed over, but not unseen:
their numbers must be numbers and their nulls must be true.  An attribute that is
not as expected is the fault before a field that is missing.

Where texts are expected, a set is as good as a list.  Bytes are then the text they
encode, while a number is no text, and the fault tells which number it is.
-/

namespace KeywordTable

/-- What a caller expects of a field of a record. -/
inductive FieldShape where
  /-- A text that must be there. -/
  | text
  /-- An integer of 64 bits that may be null or missing. -/
  | optionalInteger
  /-- Texts, none when missing. -/
  | texts
deriving DecidableEq

/-- What a field of a record holds. -/
inductive FieldContent where
  | text (content : String)
  | optionalInteger (n : Option Int)
  | texts (contents : List String)
deriving DecidableEq

/-- The number in words; a double always has a point. -/
def Numeral.described : Numeral → String
  | .integer n => "integer `" ++ toString n ++ "`"
  | .double x =>
    let text := x.text
    "floating point `" ++ text ++ (if text.toList.contains '.' then "" else ".0") ++ "`"
  | .infinite negative => "floating point `" ++ (if negative then "-inf" else "inf") ++ "`"
  | .undefined => "floating point `NaN`"

namespace FieldShape

/-- The content of a text attribute. -/
def readText : Value → Except Fault String
  | .text content => return content
  | _ => throw (.unserializable "Expected string")

/-- A number where a text is expected. -/
def refuseNumber (digits : String) : Except Fault String := do
  let numeral ← Numeral.ofText digits
  throw (.unserializable ("invalid type: " ++ numeral.described ++ ", expected a string"))

/-- The text that bytes encode. -/
def decodeText (bytes : Bytes) : Except Fault String :=
  match String.fromUTF8? ⟨bytes.toArray⟩ with
  | some content => .ok content
  | none => .error (.unserializable "invalid value: byte array, expected a string")

/-- The field that an attribute holds. -/
def ofValue : FieldShape → Value → Except Fault FieldContent
  | .text, value => do return .text (← readText value)
  | .optionalInteger, .null true => return .optionalInteger none
  | .optionalInteger, .number digits =>
    match IntegerRange.signed64.read digits with
    | .ok n => return .optionalInteger (some n)
    | .error fault =>
      throw (.unserializable
        ("Failed to parse '" ++ digits ++ "' as an integer: " ++ fault.message))
  | .optionalInteger, _ => throw (.unserializable "Expected num")
  | .texts, .list elements => do return .texts (← elements.mapM readText)
  | .texts, .textSet members => return .texts members
  | .texts, .numberSet members => do return .texts (← members.mapM refuseNumber)
  | .texts, .bytesSet members => do return .texts (← members.mapM decodeText)
  | .texts, _ => throw (.unserializable "Expected seq")

/-- What a missing attribute means for a field. -/
def ofMissing (name : String) : FieldShape → Except Fault FieldContent
  | .text => throw (.unserializable ("missing field `" ++ name ++ "`"))
  | .optionalInteger => return .optionalInteger none
  | .texts => return .texts []

end FieldShape

namespace Value

mutual

/-- See that nothing is wrong with a value that nobody asks for. -/
def inspect : Value → Except Fault Unit
  | .number digits => do let _ ← Numeral.ofText digits
  | .null false => throw (.unserializable "Expected unit")
  | .numberSet members => members.forM fun digits => do let _ ← Numeral.ofText digits
  | .list elements => inspectElements elements
  | .map members => inspectFields members
  | _ => return ()

/-- See that nothing is wrong with the elements of a list. -/
def inspectElements : List Value → Except Fault Unit
  | [] => return ()
  | value :: rest => do
    inspect value
    inspectElements rest

/-- See that nothing is wrong with named values. -/
def inspectFields : List (String × Value) → Except Fault Unit
  | [] => return ()
  | (_, value) :: rest => do
    inspect value
    inspectFields rest

end

end Value

namespace Item

/-- The fields of a record that an item holds, in the order of its attributes. -/
def presentFields (item : Item) (shape : Fields FieldShape) :
    Except Fault (Fields FieldContent) := do
  let fields ← item.mapM fun (name, value) => do
    match shape.lookup name with
    | some field => return some (name, ← field.ofValue value)
    | none =>
      value.inspect
      return none
  return fields.filterMap id

/-- Read an item as a record with the given fields. -/
def toRecord (item : Item) (shape : Fields FieldShape) : Except Fault (Fields FieldContent) := do
  let present ← item.presentFields shape
  shape.mapM fun (name, field) => do
    match present.lookup name with
    | some content => return (name, content)
    | none => return (name, ← field.ofMissing name)

end Item

end KeywordTable
