import KeywordTable.Decimal
import KeywordTable.Fault
import KeywordTable.Value

/-!
# Plain values

Callers speak of plain values: nulls, truth values, numbers, texts, lists and
named fields, with byte strings and sets marked as such.  `Plain.toValue` gives a
plain value the form it has in a table, `Plain.ofValue` reads that form back.

An integer keeps its decimal text; any other number is a double and is written
as the shortest decimal that tells it from every other double.  Reading back, a
number that is an integer of 64 bits is one, signed or unsigned, and any other is
the nearest double.
-/

namespace KeywordTable

/-- What the elements of a set are. -/
inductive SetKind where
  | text
  | number
  | bytes
deriving DecidableEq

/-- A value as callers give it. -/
inductive Plain where
  | null
  | bool (flag : Bool)
  | integer (n : Int)
  | real (x : Double)
  | text (content : String)
  | list (elements : List Plain)
  | fields (members : List (String × Plain))
  | bytes (content : Bytes)
  /-- A set given as a list of its elements. -/
  | set (kind : SetKind) (elements : Plain)
  /-- A value that refuses to be serialized. -/
  | failing (reason : String)
deriving Inhabited

/-- The text of an element of a set of texts. -/
def Value.text? : Value → Option String
  | .text content => some content
  | _ => none

/-- The text of an element of a set of numbers. -/
def Value.digits? : Value → Option String
  | .number digits => some digits
  | _ => none

/-- The bytes of an element of a set of byte strings. -/
def Value.bytes? : Value → Option Bytes
  | .bytes content => some content
  | _ => none

namespace Plain

/-- The result, or a fault with this reason. -/
def orUnserializable {α : Type} (result : Option α) (reason : String) : Except Fault α :=
  match result with
  | some a => .ok a
  | none => .error (.unserializable reason)

/-- The set with the given list of elements. -/
def setOf (kind : SetKind) : Value → Except Fault Value
  | .list elements =>
    match kind with
    | .text => do
      return .textSet (← orUnserializable (elements.mapM Value.text?)
        "String set element does not serialize to string")
    | .number => do
      return .numberSet (← orUnserializable (elements.mapM Value.digits?)
        "Number set element does not serialize to number")
    | .bytes => do
      return .bytesSet (← orUnserializable (elements.mapM Value.bytes?)
        "Binary set element does not serialize to binary")
  | _ => throw (.unserializable "Not a set-like sequence")

mutual

/-- The form of a plain value in a table. -/
def toValue : Plain → Except Fault Value
  | .null => return .null true
  | .bool flag => return .bool flag
  | .integer n => return .number (toString n)
  | .real x => return .number x.text
  | .text content => return .text content
  | .list elements => return .list (← elementsToValues elements)
  | .fields members => return .map (Fields.canonical (← fieldsToValues members))
  | .bytes content => return .bytes content
  | .set kind elements => do setOf kind (← toValue elements)
  | .failing reason => throw (.unserializable reason)

/-- The form of a list of plain values, from left to right. -/
def elementsToValues : List Plain → Except Fault (List Value)
  | [] => return []
  | plain :: rest => do
    let value ← toValue plain
    return value :: (← elementsToValues rest)

/-- The form of named plain values, from left to right. -/
def fieldsToValues : List (String × Plain) → Except Fault (List (String × Value))
  | [] => return []
  | (name, plain) :: rest => do
    let value ← toValue plain
    return (name, value) :: (← fieldsToValues rest)

end

/-- The item that a plain value stands for; only named fields stand for one. -/
def toItem (plain : Plain) : Except Fault Item := do
  match ← plain.toValue with
  | .map item => return item
  | _ => throw (.unserializable "Not a map-like object")

end Plain

end KeywordTable
