import KeywordTable.Request

/-!
# Paged reading

A reader yields the items of a query or a scan one by one and asks for a page only
when it has none left.  It lives through three phases.  While **configuring** it
takes options; the first item asked for, or a count, makes it **bound**, and its
options are fixed; when it ends or a page fails it is **exhausted** and yields
nothing more.

A reader that is not recursive reads one page; `again` makes a new reader that
goes on after it.  A recursive one reads on while pages name a successor.  A limit
caps a single page, so it conflicts with reading recursively unless it is to be
spent across the pages: then what it still allows is the limit of the next page,
and reading ends when nothing is left.  Whatever a page reports is taken off a
number of 32 bits, which wraps around where it leaves them.

Its items pass a `Validator`, which sees every item that is written to a table or
read from it.  It may change the item and it may refuse it, and it is told when the
item may lack attributes because only some of them were asked for.  `Rules` describe
a validator by what it requires, rejects and inserts.
-/

namespace KeywordTable

/-! ### Validators -/

/-- A check that an item passes, possibly changed; the flag says that the item
may lack attributes. -/
abbrev Validator := Item → Bool → Except Violations Item

namespace Validator

/-- Everything passes as it is. -/
def none : Validator := fun item _ => .ok item

/-- The item that passes, or the fault that it does not. -/
def check (validator : Validator) (item : Item) (incomplete : Bool) : Except Fault Item :=
  (validator item incomplete).mapError .invalid

variable {validator : Validator} {item : Item} {incomplete : Bool}

/-- An item passes the check if the validator lets it pass. -/
theorem check_eq_ok_iff {passed : Item} :
    validator.check item incomplete = .ok passed ↔ validator item incomplete = .ok passed := by
  unfold check
  cases validator item incomplete with
  | ok other => constructor <;> rintro ⟨⟩ <;> rfl
  | error violations => exact iff_of_false nofun nofun

/-- The check fails with what the validator has against the item, and with nothing else. -/
theorem check_eq_error_iff {fault : Fault} :
    validator.check item incomplete = .error fault ↔
      ∃ violations, validator item incomplete = .error violations ∧
        fault = .invalid violations := by
  unfold check
  cases validator item incomplete with
  | ok other => exact iff_of_false nofun nofun
  | error violations =>
      constructor
      · intro h
        cases h
        exact ⟨violations, rfl, rfl⟩
      · rintro ⟨other, hother, rfl⟩
        cases hother
        rfl

end Validator

/-- A validator described by names and messages. -/
structure Rules where
  /-- Attributes that a complete item must have. -/
  require : List String := []
  /-- Attributes that no item may have, each with the message for it. -/
  reject : List (String × String) := []
  /-- Attributes written into every item that passes. -/
  insert : Item := []
  /-- An attribute that records whether the item may lack attributes. -/
  stamp : Option String := none

namespace Rules

/-- Add a message to those of a field. -/
def report (violations : Violations) (field message : String) : Violations :=
  violations.put field ((violations.lookup field).getD [] ++ [message])

/-- What the rules have against an item: missing attributes first, then rejected
ones. -/
def violations (rules : Rules) (item : Item) (incomplete : Bool) : Violations :=
  let missing := rules.require.filter fun name => !incomplete && !Fields.has item name
  let rejected := rules.reject.filter fun rule => Fields.has item rule.1
  (missing.map (·, "missing") ++ rejected).foldl (fun found rule => report found rule.1 rule.2) []

/-- The validator that follows the rules. -/
def validator (rules : Rules) : Validator := fun item incomplete =>
  match rules.violations item incomplete with
  | [] =>
    let item := rules.insert.foldl (fun item field => Fields.put item field.1 field.2) item
    match rules.stamp with
    | none => .ok item
    | some name => .ok (Fields.put item name (.bool incomplete))
  | found => .error found

end Rules

/-! ### Readers -/

/-- The phases of a reader. -/
inductive Phase where
  | configuring
  | bound
  | exhausted
deriving DecidableEq

/-- A paged read in progress. -/
structure Reader where
  request : PageRequest
  recursive : Bool := false
  acrossPages : Bool := false
  validator : Validator := Validator.none
  /-- The items may lack attributes even when none are selected. -/
  incomplete : Bool := false
  phase : Phase := .configuring
  /-- Items of the last page that are still to be yielded. -/
  buffer : List Item := []
  /-- How many pages were read. -/
  pages : Nat := 0
  /-- What is left of a limit that is spent across pages. -/
  budget : Option Int32 := none
  /-- Where the page after the last one starts. -/
  last : Option Item := none

namespace Reader

/-- A reader that passes items through a validator. -/
def ofRequest (request : PageRequest) (validator : Validator) (incomplete : Bool) : Reader :=
  { request, validator, incomplete }

/-! ### Configuring -/

/-- Change a reader that is still configuring. -/
def configure (reader : Reader) (change : Reader → Except Fault Reader) : Except Fault Reader :=
  if reader.phase = .configuring then change reader else throw .alreadyBound

/-- Change how the pages are read. -/
def modifyRead (reader : Reader) (change : PageRead → PageRead) : Reader :=
  { reader with request := { reader.request with read := change reader.request.read } }

/-- Look at no more than this many items a page. -/
def limit (reader : Reader) (limit : Int32) : Except Fault Reader :=
  reader.configure fun r => return r.modifyRead ({ · with limit := some limit })

/-- Start after this key. -/
def start (reader : Reader) (key : Item) : Except Fault Reader :=
  reader.configure fun r => return r.modifyRead ({ · with start := some key })

/-- Read what was written last. -/
def consistent (reader : Reader) : Except Fault Reader :=
  reader.configure fun r => return r.modifyRead ({ · with consistent := some true })

/-- Read in descending order of the range key. -/
def reverse (reader : Reader) : Except Fault Reader :=
  reader.configure fun r =>
    match r.request.access with
    | .query keyCondition _ =>
      return { r with request := { r.request with access := .query keyCondition (some false) } }
    | .scan => throw (.conflictingOptions "a scan has no order to reverse")

/-- Return only these attributes. -/
def specificAttributes (reader : Reader) (names : List String) : Except Fault Reader :=
  reader.configure fun r => do
    let selection ← Selection.parse names
    return r.modifyRead ({ · with selection })

/-- Read on until the last page. -/
def recursively (reader : Reader) : Except Fault Reader :=
  reader.configure fun r => return { r with recursive := true }

/-- Spend the limit across pages instead of a page at a time. -/
def limitAcrossPages (reader : Reader) : Except Fault Reader :=
  reader.configure fun r => return { r with acrossPages := true }

/-! ### Going on -/

/-- Where the page after the last one starts; none after the final page. -/
def lastKey (reader : Reader) : Option Item := reader.last

/-- A new reader with the same options that starts after the last page. -/
def again (reader : Reader) : Except Fault Reader :=
  match reader.last with
  | none => throw .noMorePages
  | some last =>
    return { reader.modifyRead ({ · with start := some last }) with
      phase := .configuring, buffer := [], pages := 0, budget := none, last := none }

end Reader

end KeywordTable
