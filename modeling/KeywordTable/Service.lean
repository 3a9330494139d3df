import KeywordTable.Json
import KeywordTable.Store

/-!
# The service

A store across a network.  The service has requests and answers of its own: it speaks of
batches by table, so what it is sent, what it found and what it left over are all maps
from table names.  Its answers may say more than was asked for, and they may leave out
what is empty.

Requests are posted as messages, and what comes back is a status and a text, or nothing
when a message cannot be delivered.  How a request is put into a message and how an
answer is read off what comes back is up to a `Codec`; nothing here looks inside of
either.  What is decided here is which request stands for a call (`Call.request`), what
an answer means for the caller (`Call.reply`), and which fault a trouble is.

A caller asks about one table, so the parts of an answer about other tables are passed
over.  An entry of unprocessed writes that holds a put is that put, an entry that holds
only a delete is that delete, and one that holds neither is nothing.
-/

namespace KeywordTable

/-! ### Requests and answers -/

/-- A write as the service words it. -/
structure WriteEntry where
  put : Option Item := none
  delete : Option Item := none
deriving DecidableEq

/-- Keys of a table, and how the items are read that they belong to. -/
structure KeysEntry where
  keys : List Item := []
  consistent : Option Bool := none
  names : Option NameMap := none
  projection : Option String := none
deriving DecidableEq

/-- A page as the service gives it. -/
structure PageAnswer where
  items : Option (List Item) := none
  last : Option Item := none
  count : Int32 := 0
  scanned : Int32 := 0
deriving DecidableEq

/-- A batch of found items as the service gives it, by table. -/
structure BatchGetAnswer where
  found : Option (Fields (List Item)) := none
  unprocessed : Option (Fields KeysEntry) := none
deriving DecidableEq

/-- A request to the service. -/
inductive ServiceRequest where
  | getItem (key : Item) (read : ItemReadCall)
  | batchGet (tables : Fields KeysEntry)
  | putItem (item : Item) (write : WriteCall)
  | updateItem (key : Item) (update : String) (write : WriteCall)
  | deleteItem (key : Item) (write : WriteCall)
  | query (keyCondition : String) (forward : Option Bool) (read : PageReadCall)
  | scan (read : PageReadCall)
  | batchWrite (tables : Fields (List WriteEntry))
deriving DecidableEq

namespace ServiceRequest

/-- The answer of the service to a request. -/
abbrev Answer : ServiceRequest → Type
  | .getItem _ _ => Option Item
  | .batchGet _ => BatchGetAnswer
  | .putItem _ _ => Unit
  | .updateItem _ _ _ => Option Item
  | .deleteItem _ _ => Unit
  | .query _ _ _ => PageAnswer
  | .scan _ => PageAnswer
  | .batchWrite _ => Option (Fields (List WriteEntry))

/-- The items and keys that a request carries, and the values its expressions speak of. -/
def items : ServiceRequest → List Item
  | .getItem key _ => [key]
  | .batchGet tables => tables.flatMap fun table => table.2.keys
  | .putItem item write => item :: write.values.toList
  | .updateItem key _ write => key :: write.values.toList
  | .deleteItem key write => key :: write.values.toList
  | .query _ _ read => read.start.toList ++ read.values.toList
  | .scan read => read.start.toList ++ read.values.toList
  | .batchWrite tables => tables.flatMap fun table =>
    table.2.flatMap fun entry => entry.put.toList ++ entry.delete.toList

/-- Is every value in the request of a known kind? -/
def isKnown (request : ServiceRequest) : Bool := request.items.all Item.isKnown

end ServiceRequest

/-! ### What a call is sent as -/

/-- The entry for a write. -/
def WriteRequest.toEntry : WriteRequest → WriteEntry
  | .put item => { put := some item }
  | .delete key => { delete := some key }

/-- The write an entry stands for. -/
def WriteEntry.toRequest? (entry : WriteEntry) : Option WriteRequest :=
  match entry.put, entry.delete with
  | some item, _ => some (.put item)
  | none, some key => some (.delete key)
  | none, none => none

/-- An entry means the write it was made for. -/
theorem toRequest?_toEntry (request : WriteRequest) :
    request.toEntry.toRequest? = some request := by
  cases request <;> rfl

/-- Keys with the settings of a read. -/
def ItemReadCall.entry (read : ItemReadCall) (keys : List Item) : KeysEntry :=
  { keys
    consistent := read.consistent
    names := read.names
    projection := read.projection }

namespace Call

/-- The request that stands for a call; a batch speaks of its one table. -/
def request : Call → ServiceRequest
  | .getItem key read => .getItem key read
  | .batchGet keys read => .batchGet [(read.table, read.entry keys)]
  | .putItem item write => .putItem item write
  | .updateItem key update write => .updateItem key update write
  | .deleteItem key write => .deleteItem key write
  | .query keyCondition forward read => .query keyCondition forward read
  | .scan read => .scan read
  | .batchWrite table requests => .batchWrite [(table, requests.map WriteRequest.toEntry)]

end Call

/-! ### What an answer means -/

/-- The page that is meant; a successor without attributes is none. -/
def PageAnswer.page (answer : PageAnswer) : Page :=
  { items := answer.items.getD []
    last := answer.last.filter fun key => !key.isEmpty
    count := answer.count
    scanned := answer.scanned }

/-- What an answer by table says about one of them, if it says anything. -/
def aboutTable {α : Type} (answer : Option (Fields α)) (table : String) : Option α :=
  answer.bind fun tables => tables.lookup table

/-- What was found in a table, and the keys of it that are left over. -/
def BatchGetAnswer.about (answer : BatchGetAnswer) (table : String) : BatchFound :=
  { items := (aboutTable answer.found table).getD []
    unprocessed := ((aboutTable answer.unprocessed table).map KeysEntry.keys).getD [] }

/-- The writes to a table that are left over; entries that hold nothing are dropped. -/
def leftOver (answer : Option (Fields (List WriteEntry))) (table : String) : List WriteRequest :=
  ((aboutTable answer table).getD []).filterMap WriteEntry.toRequest?

/-- What an answer means for the caller. -/
def Call.reply : (call : Call) → call.request.Answer → call.Reply
  | .getItem _ _, item => item
  | .batchGet _ read, answer => answer.about read.table
  | .putItem _ _, _ => ()
  | .updateItem _ _ _, attributes => attributes
  | .deleteItem _ _, _ => ()
  | .query _ _ _, answer => answer.page
  | .scan _, answer => answer.page
  | .batchWrite table _, answer => leftOver answer table

/-! ### What goes wrong -/

/-- What keeps a request from being answered: the code and the message of a failure as far
as it has them, and what there is to say when the code is none of those that are known. -/
structure Trouble where
  code : Option String := none
  message : Option String := none
  text : String
deriving DecidableEq

/-- The codes of failures that ask to slow down. -/
def throttlingCodes : List String :=
  ["ProvisionedThroughputExceededException", "ThrottlingException", "RequestLimitExceeded"]

/-- What a trouble means for the caller. -/
def Trouble.fault (trouble : Trouble) : Fault :=
  let message := trouble.message.getD ""
  match trouble.code with
  | none => .unreachable trouble.text
  | some code =>
    if code = "ConditionalCheckFailedException" then .conditionFailed message
    else if throttlingCodes.contains code then .throttled message
    else .unreachable trouble.text

/-! ### Messages -/

/-- A message to the service. -/
structure Message where
  operation : String
  body : Json

/-- The operation as the header of the message names it. -/
def Message.target (message : Message) : String := "DynamoDB_20120810." ++ message.operation

/-- What becomes of a message. -/
inductive Delivery where
  | replied (status : Nat) (text : String)
  | undelivered
deriving DecidableEq

/-- A way to the service. -/
structure Transport (σ : Type) where
  post : Message → StateM σ Delivery

/-- The transport that also keeps every message, oldest first. -/
def Transport.recording {σ : Type} (transport : Transport σ) : Transport (σ × List Message) where
  post message := fun (state, messages) =>
    let (delivery, state) := transport.post message state
    (delivery, state, messages ++ [message])

/-- A way to put requests into messages, and to read the answers off what comes back. -/
structure Codec where
  encode : ServiceRequest → Except Trouble Message
  decode : (request : ServiceRequest) → Delivery → Except Trouble request.Answer

/-- Post a request and read the answer.  What cannot be put into a message is not posted. -/
def Codec.ask {σ : Type} (codec : Codec) (transport : Transport σ) (request : ServiceRequest) :
    StateM σ (Except Trouble request.Answer) := fun state =>
  match codec.encode request with
  | .error trouble => (.error trouble, state)
  | .ok message =>
    let (delivery, state) := transport.post message state
    (codec.decode request delivery, state)

/-- The store at the other end of a transport. -/
def Codec.store {σ : Type} (codec : Codec) (transport : Transport σ) : Store σ where
  answer call := fun state =>
    let (answer, state) := codec.ask transport call.request state
    ((answer.mapError Trouble.fault).map call.reply, state)

end KeywordTable
