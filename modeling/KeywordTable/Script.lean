import KeywordTable.Service.Answer

/-!
# Scripts

Stores and transports that answer from a prepared list, one entry a call, and that
answer with nothing special when the list is used up.  They serve to rehearse what
a caller does.
-/

namespace KeywordTable

/-- A prepared answer; a call takes from it what it can use. -/
structure ScriptedAnswer where
  /-- The call fails. -/
  fault : Option Fault := none
  /-- What is found or changed. -/
  item : Option Item := none
  page : Page := {}
  /-- How many requests of a batch, counted from the end, are left over. -/
  unprocessed : Nat := 0
  /-- What a batch finds; the keys themselves when nothing else is prepared. -/
  found : Option (List Item) := none

namespace ScriptedAnswer

/-- What a batch gets to. -/
def processedPart {α : Type} (answer : ScriptedAnswer) (batch : List α) : List α :=
  batch.take (batch.length - answer.unprocessed)

/-- What a batch leaves over. -/
def unprocessedPart {α : Type} (answer : ScriptedAnswer) (batch : List α) : List α :=
  batch.drop (batch.length - answer.unprocessed)

/-- The reply to a call. -/
def reply (answer : ScriptedAnswer) : (call : Call) → call.Reply
  | .getItem _ _ => answer.item
  | .batchGet keys _ =>
    { items := answer.found.getD (answer.processedPart keys)
      unprocessed := answer.unprocessedPart keys }
  | .putItem _ _ => ()
  | .updateItem _ _ _ => answer.item
  | .deleteItem _ _ => ()
  | .query _ _ _ => answer.page
  | .scan _ => answer.page
  | .batchWrite _ requests => answer.unprocessedPart requests

end ScriptedAnswer

/-- Take the next entry of a script. -/
def nextEntry {α : Type} (nothing : α) : StateM (List α) α := fun entries =>
  match entries with
  | [] => (nothing, [])
  | entry :: rest => (entry, rest)

/-- The store that answers from a script. -/
def scriptedStore : Store (List ScriptedAnswer) where
  answer call := fun entries =>
    let (answer, rest) := nextEntry {} entries
    match answer.fault with
    | some fault => (.error fault, rest)
    | none => (.ok (answer.reply call), rest)

/-- The transport that delivers from a script. -/
def scriptedTransport : Transport (List Delivery) where
  post _ := nextEntry (.replied 200 "\x7b\x7d")

end KeywordTable
