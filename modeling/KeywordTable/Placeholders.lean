import KeywordTable.Path
import KeywordTable.Value

/-!
# Placeholders

An expression never spells a name or a value out: it speaks of tokens, and two
maps sent along with it say what they stand for.  Tokens are handed out in order
of first use, `#n0`, `#n1`, … to names and `:v0`, `:v1`, … to values, and the same
name or value always gets the same token.  All expressions of one request share
one supply, so a token means the same in each of them.

The supply is the list of names and the list of values handed out so far.  It
only ever grows at the end (`names_internName`, `values_internValue`), and the
token of a name is its place in the list.

The paths of a `Selection` are written as tokens too.  It names the attributes that
a read returns; the empty selection asks for all of them and is never sent.
-/

namespace KeywordTable

/-- The names and the values that have a token, in order of first use. -/
structure Placeholders where
  names : List String := []
  values : List Value := []
deriving DecidableEq

/-- What the name tokens of a request stand for. -/
abbrev NameMap := Fields String

/-- What the value tokens of a request stand for. -/
abbrev ValueMap := Fields Value

/-- A computation that may take tokens out of the supply. -/
abbrev Interning := StateM Placeholders

namespace Placeholders

/-- The token of the name at a place. -/
def nameToken (place : Nat) : String := "#n" ++ toString place

/-- The token of the value at a place. -/
def valueToken (place : Nat) : String := ":v" ++ toString place

/-- Is the supply untouched? -/
def isEmpty (supply : Placeholders) : Bool := supply.names.isEmpty && supply.values.isEmpty

/-- What each name token stands for. -/
def nameMap (supply : Placeholders) : NameMap :=
  supply.names.mapIdx fun place name => (nameToken place, name)

/-- What each value token stands for. -/
def valueMap (supply : Placeholders) : ValueMap :=
  supply.values.mapIdx fun place value => (valueToken place, value)

/-- The name map of a request, left out when it says nothing. -/
def nameMap? (supply : Placeholders) : Option NameMap :=
  if supply.names.isEmpty then none else some supply.nameMap

/-- The value map of a request, left out when it says nothing. -/
def valueMap? (supply : Placeholders) : Option ValueMap :=
  if supply.values.isEmpty then none else some supply.valueMap

end Placeholders

open Placeholders

/-- The token of a name. -/
def internName (name : String) : Interning String := fun supply =>
  (nameToken (supply.names.idxOf name),
    if name ∈ supply.names then supply else { supply with names := supply.names ++ [name] })

/-- The token of a value. -/
def internValue (value : Value) : Interning String := fun supply =>
  (valueToken (supply.values.idxOf value),
    if value ∈ supply.values then supply else { supply with values := supply.values ++ [value] })

/-- The tokens of a path's names, joined by dots. -/
def internPath (path : AttributePath) : Interning String := do
  let tokens ← path.names.mapM internName
  return ".".intercalate tokens

/-- Names are added at the end, and only new ones. -/
theorem names_internName (name : String) (supply : Placeholders) :
    (internName name supply).2.names =
      if name ∈ supply.names then supply.names else supply.names ++ [name] := by
  by_cases h : name ∈ supply.names <;> simp [internName, h]

/-- Values are added at the end, and only new ones. -/
theorem values_internValue (value : Value) (supply : Placeholders) :
    (internValue value supply).2.values =
      if value ∈ supply.values then supply.values else supply.values ++ [value] := by
  by_cases h : value ∈ supply.values <;> simp [internValue, h]

/-- Taking a name leaves the values alone. -/
@[simp]
theorem values_internName (name : String) (supply : Placeholders) :
    (internName name supply).2.values = supply.values := by
  by_cases h : name ∈ supply.names <;> simp [internName, h]

/-- Taking a value leaves the names alone. -/
@[simp]
theorem names_internValue (value : Value) (supply : Placeholders) :
    (internValue value supply).2.names = supply.names := by
  by_cases h : value ∈ supply.values <;> simp [internValue, h]

/-! ### Selections -/

/-- The attributes to return; none stands for all. -/
structure Selection where
  paths : List AttributePath := []
deriving DecidableEq

namespace Selection

/-- Read a selection, one path a name; the first name that is no path is the
fault. -/
def parse (names : List String) : Except Fault Selection := do
  return ⟨← names.mapM AttributePath.parse⟩

/-- Does the selection stand for all attributes? -/
def isEmpty (selection : Selection) : Bool := selection.paths.isEmpty

/-- A selection stands for all attributes only if it was read from no names. -/
theorem isEmpty_of_parse {names : List String} {selection : Selection}
    (h : parse names = .ok selection) : selection.isEmpty = names.isEmpty := by
  obtain ⟨paths, hpaths, hselection⟩ := bind_eq_ok_iff.mp h
  cases hselection
  have hmap := mapM_eq_ok_iff.mp hpaths
  cases names with
  | nil =>
      obtain rfl := List.map_eq_nil_iff.mp hmap.symm
      rfl
  | cons name names =>
      cases paths with
      | nil => cases hmap
      | cons path paths => rfl

/-- The projection expression: the paths, apart by commas. -/
def render (selection : Selection) : Interning String := do
  return ", ".intercalate (← selection.paths.mapM internPath)

/-- The projection expression of a request, left out when nothing is selected. -/
def render? (selection : Selection) : Interning (Option String) :=
  if selection.isEmpty then return none else return some (← selection.render)

end Selection

end KeywordTable
