import KeywordTable.Fields

/-!
# Attribute values and items

An attribute holds a text, a number, bytes, a truth value, a null, a set of
texts, numbers or byte strings, a list, a nested map, or something of a kind that
is not known here.  Numbers are kept as the text they were written with: nothing
here ever computes with one, and two numbers are equal only when their texts are.
The fields of a map are canonical, so equality of values is equality of content,
lists and sets in their order.

An **item** is the map of a whole row.  `withoutNulls` is the form in which an
item is stored: null attributes are dropped, also inside nested maps, while
lists and sets are kept as they are.
-/

namespace KeywordTable

/-- A byte string. -/
abbrev Bytes := List UInt8

/-- The value of one attribute. -/
inductive Value where
  | text (content : String)
  | number (digits : String)
  | bytes (content : Bytes)
  | bool (flag : Bool)
  | null (flag : Bool)
  | textSet (members : List String)
  | numberSet (members : List String)
  | bytesSet (members : List Bytes)
  | list (elements : List Value)
  | map (fields : List (String × Value))
  /-- A value of a kind that is not known here; of what it holds nothing is kept. -/
  | unknown
deriving Inhabited

/-- The attributes of one row, by name. -/
abbrev Item := Fields Value

namespace Value

/-- Both spellings of null count as null. -/
def isNull : Value → Bool
  | .null _ => true
  | _ => false

/-- Is this a list? -/
def isList : Value → Bool
  | .list _ => true
  | _ => false

/-- Is this a number? -/
def isNumber : Value → Bool
  | .number _ => true
  | _ => false

/-- Is this a set of texts, numbers or byte strings? -/
def isSet : Value → Bool
  | .textSet _ | .numberSet _ | .bytesSet _ => true
  | _ => false

/-- Can the start of this value be compared, that is, is it a text or bytes? -/
def hasStart : Value → Bool
  | .text _ | .bytes _ => true
  | _ => false

mutual

/-- Structural comparison of two values. -/
def same : Value → Value → Bool
  | .text a, .text b | .number a, .number b => a == b
  | .bytes a, .bytes b => a == b
  | .bool a, .bool b | .null a, .null b => a == b
  | .textSet a, .textSet b | .numberSet a, .numberSet b => a == b
  | .bytesSet a, .bytesSet b => a == b
  | .list a, .list b => sameElements a b
  | .map a, .map b => sameFields a b
  | .unknown, .unknown => true
  | _, _ => false

/-- Structural comparison of two lists of values. -/
def sameElements : List Value → List Value → Bool
  | [], [] => true
  | a :: as, b :: bs => a.same b && sameElements as bs
  | _, _ => false

/-- Structural comparison of two lists of fields. -/
def sameFields : List (String × Value) → List (String × Value) → Bool
  | [], [] => true
  | (m, a) :: as, (n, b) :: bs => m == n && a.same b && sameFields as bs
  | _, _ => false

end

mutual

/-- Comparison decides equality. -/
theorem same_iff : ∀ a b : Value, a.same b = true ↔ a = b
  | .text _, b | .number _, b | .bytes _, b | .bool _, b | .null _, b
  | .textSet _, b | .numberSet _, b | .bytesSet _, b | .unknown, b => by cases b <;> simp [same]
  | .list xs, b => by cases b <;> simp [same, sameElements_iff xs]
  | .map xs, b => by cases b <;> simp [same, sameFields_iff xs]

/-- Comparison decides equality of lists of values. -/
theorem sameElements_iff : ∀ a b : List Value, sameElements a b = true ↔ a = b
  | [], b => by cases b <;> simp [sameElements]
  | x :: xs, b => by cases b <;> simp [sameElements, same_iff x, sameElements_iff xs]

/-- Comparison decides equality of lists of fields. -/
theorem sameFields_iff : ∀ a b : List (String × Value), sameFields a b = true ↔ a = b
  | [], b => by cases b <;> simp [sameFields]
  | (_, x) :: xs, b => by
    cases b with
    | nil => simp [sameFields]
    | cons y ys => cases y; simp [sameFields, same_iff x, sameFields_iff xs, and_assoc]

end

instance : DecidableEq Value := fun a b => decidable_of_iff _ (same_iff a b)

mutual

/-- The value with null attributes dropped from its nested maps. -/
def withoutNulls : Value → Value
  | .map fields => .map (fieldsWithoutNulls fields)
  | value => value

/-- The fields that are not null, each without nested nulls. -/
def fieldsWithoutNulls : List (String × Value) → List (String × Value)
  | [] => []
  | (name, value) :: rest =>
    if value.isNull then fieldsWithoutNulls rest
    else (name, value.withoutNulls) :: fieldsWithoutNulls rest

end

mutual

/-- Is the value of a known kind, inside and out? -/
def isKnown : Value → Bool
  | .list elements => elementsKnown elements
  | .map fields => fieldsKnown fields
  | .unknown => false
  | _ => true

/-- Are the elements of a list of known kinds? -/
def elementsKnown : List Value → Bool
  | [] => true
  | value :: rest => isKnown value && elementsKnown rest

/-- Are named values of known kinds? -/
def fieldsKnown : List (String × Value) → Bool
  | [] => true
  | (_, value) :: rest => isKnown value && fieldsKnown rest

end

end Value

/-- Are the attributes of known kinds? -/
def Item.isKnown (item : Item) : Bool := Value.fieldsKnown item

/-- The item as it is stored: no null attribute, at the top or in a nested map. -/
def Item.withoutNulls (item : Item) : Item := Value.fieldsWithoutNulls item

end KeywordTable
