import KeywordTable.Fault
import KeywordTable.Placeholders

/-!
# Calls and stores

A call is a request as it reaches a store: items and keys, the expressions as text, and
the two maps that explain the tokens in them.  A map that explains nothing is left out,
and so is every part that was not asked for.  `Call.Reply` says what kind of answer a
call has when it succeeds.

A store answers calls one at a time.  Nothing is assumed about it: it has a state of some
type, and each call takes it from one state to the next with an answer or a fault.  A
fixed table, a script of canned answers and a service across a network are all stores.

Everything that talks to a store is a `Run`: it ends with a result or a fault, and in
either case with the state that the store is left in.  `Store.recording` keeps the list
of all calls beside the state, which is how one says what was sent.

Limits and counts are numbers of 32 bits.  They are integers where they are compared with
others or added up, and an integer that 32 bits do not hold loses its leading digits.
-/

namespace KeywordTable

/-- A number of 32 bits is an integer. -/
instance coeInt32Int : Coe Int32 Int := ⟨Int32.toInt⟩

/-- An integer as a number of 32 bits. -/
instance coeTailIntInt32 : CoeTail Int Int32 := ⟨Int32.ofInt⟩

/-- What a read of single items carries besides the keys. -/
structure ItemReadCall where
  table : String
  consistent : Option Bool := none
  names : Option NameMap := none
  projection : Option String := none
deriving DecidableEq

/-- What the read of a page carries besides the key condition. -/
structure PageReadCall where
  table : String
  index : Option String := none
  consistent : Option Bool := none
  start : Option Item := none
  limit : Option Int32 := none
  names : Option NameMap := none
  values : Option ValueMap := none
  filter : Option String := none
  projection : Option String := none
  select : Option String := none
deriving DecidableEq

/-- What a write of a single item carries besides the item or its key. -/
structure WriteCall where
  table : String
  condition : Option String := none
  names : Option NameMap := none
  values : Option ValueMap := none
  returnValues : Option String := none
deriving DecidableEq

/-- One request of a batch of writes. -/
inductive WriteRequest where
  | put (item : Item)
  | delete (key : Item)
deriving DecidableEq

/-- A page of items. -/
structure Page where
  items : List Item := []
  /-- Where the next page starts; none on the last page. -/
  last : Option Item := none
  /-- How many items match. -/
  count : Int32 := 0
  /-- How many items were looked at. -/
  scanned : Int32 := 0
deriving DecidableEq

/-- What a batch of reads found, and the keys it did not get to. -/
structure BatchFound where
  items : List Item := []
  unprocessed : List Item := []
deriving DecidableEq

/-- A request as it reaches the store. -/
inductive Call where
  | getItem (key : Item) (read : ItemReadCall)
  | batchGet (keys : List Item) (read : ItemReadCall)
  | putItem (item : Item) (write : WriteCall)
  | updateItem (key : Item) (update : String) (write : WriteCall)
  | deleteItem (key : Item) (write : WriteCall)
  | query (keyCondition : String) (forward : Option Bool) (read : PageReadCall)
  | scan (read : PageReadCall)
  | batchWrite (table : String) (requests : List WriteRequest)
deriving DecidableEq

/-- The answer to a call that succeeds. -/
abbrev Call.Reply : Call → Type
  | .getItem _ _ => Option Item
  | .batchGet _ _ => BatchFound
  | .putItem _ _ => Unit
  | .updateItem _ _ _ => Option Item
  | .deleteItem _ _ => Unit
  | .query _ _ _ => Page
  | .scan _ => Page
  | .batchWrite _ _ => List WriteRequest

/-- Replies to a call can be compared. -/
instance Call.decidableEqReply : (call : Call) → DecidableEq call.Reply
  | .getItem _ _ | .updateItem _ _ _ => inferInstanceAs (DecidableEq (Option Item))
  | .batchGet _ _ => inferInstanceAs (DecidableEq BatchFound)
  | .putItem _ _ | .deleteItem _ _ => inferInstanceAs (DecidableEq Unit)
  | .query _ _ _ | .scan _ => inferInstanceAs (DecidableEq Page)
  | .batchWrite _ _ => inferInstanceAs (DecidableEq (List WriteRequest))

/-! ### Stores -/

/-- A computation that talks to a store. -/
abbrev Run (σ : Type) := ExceptT Fault (StateM σ)

/-- Something that answers calls. -/
structure Store (σ : Type) where
  answer : (call : Call) → Run σ call.Reply

/-- The store that also keeps every call it is given, oldest first. -/
def Store.recording {σ : Type} (store : Store σ) : Store (σ × List Call) where
  answer call := fun (state, calls) =>
    let (result, state) := store.answer call state
    (result, state, calls ++ [call])

/-- A result that is known without asking the store. -/
def Run.ofExcept {σ α : Type} (result : Except Fault α) : Run σ α :=
  fun state => (result, state)

/-- The same run, where a fault takes another meaning. -/
def Run.mapFault {σ α : Type} (run : Run σ α) (meaning : Fault → Fault) : Run σ α :=
  fun state =>
    let (result, state) := run state
    (result.mapError meaning, state)

/-- The result or the fault, as a value. -/
def Run.attempt {σ α : Type} (run : Run σ α) : StateM σ (Except Fault α) := run

end KeywordTable
