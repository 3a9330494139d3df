import KeywordTable.Service.Body
import KeywordTable.Service.Decoder

/-!
# Answer bodies

What the answers to requests look like.  A value is an object with exactly one member
that is not null and names its kind; a mark of its type may stand beside it.  When the
kind is not known, so much is understood that there is a value.

An answer also says what a request has used up and what it has added to a collection.
Nobody here asks for that, but it must be as it should.

When the service does not answer, it says so with a failure.  A failure has a code,
which names the cause: behind a namespace that ends in `#` and in front of a remark
that begins with `:`, and both are cut off.  It is read twice.  First its code and its
message are picked out, by the names of the members as they are spelled, and everything
else is passed over.  Then, if it is one of those that may come of the request, its
further members must be as they should; if they are not, all that is known is that the
service failed.

A status of success carries the answer, and an empty text is an answer without members.
Any other status carries a failure.  `Codec.json` is the codec that speaks so.
-/

namespace KeywordTable

/-! ### Answers -/

namespace Value

/-- The members that say what a value is: nulls and marks of a type are put aside. -/
def kinds? : Spelling → Option (List (String × Spelling))
  | .object members => do
    let present := members.filter fun (_, part) => match part with | .null => false | _ => true
    let (marks, kinds) := (← (Spelling.object present).members?).partition (·.1 == "__type")
    if marks.all fun (_, part) => part.canPass passedLevels then some kinds else none
  | _ => none

/-- The value of a kind, when it is known how the values inside of it are decoded. -/
def ofKind? (inner : Decoder Value) (levels : Nat) (kind : String) (part : Spelling) :
    Option Value :=
  if kind = "S" then (Decoder.text.required levels part).map .text
  else if kind = "N" then (Decoder.text.required levels part).map .number
  else if kind = "B" then (Decoder.bytes.required levels part).map .bytes
  else if kind = "BOOL" then (Decoder.bool.required levels part).map .bool
  else if kind = "NULL" then (Decoder.bool.required levels part).map .null
  else if kind = "SS" then ((Decoder.listOf .text).required levels part).map .textSet
  else if kind = "NS" then ((Decoder.listOf .text).required levels part).map .numberSet
  else if kind = "BS" then ((Decoder.listOf .bytes).required levels part).map .bytesSet
  else if kind = "L" then ((Decoder.listOf inner).required levels part).map .list
  else if kind = "M" then ((Decoder.fieldsOf inner).required levels part).map .map
  else if part.canPass passedLevels then some .unknown
  else none

/-- The decoder of values that stand inside each other at most so many times. -/
def decoderUpTo : Nat → Decoder Value
  | 0 => fun _ _ => none
  | most + 1 => Decoder.below fun levels part => do
    match ← kinds? part with
    | [(kind, part)] => ofKind? (decoderUpTo most) levels kind part
    | _ => none

end Value

namespace Decoder

/-- An attribute value; each takes up a level, so no more fit than there are levels. -/
def value : Decoder Value := fun levels => Value.decoderUpTo levels levels

/-- An item. -/
def item : Decoder Item := fieldsOf value

/-- The only member of an entry, an item; a missing one has no attributes. -/
def onlyItem (name : String) : Decoder Item :=
  record [] [.kept name item fun _ item => item.getD []]

/-- An entry of a batch of writes. -/
def writeEntry : Decoder WriteEntry :=
  record {} [
    .kept "PutRequest" (onlyItem "Item") fun entry put => { entry with put },
    .kept "DeleteRequest" (onlyItem "Key") fun entry delete => { entry with delete }]

/-- An entry of a batch of reads. -/
def keysEntry : Decoder KeysEntry :=
  record {} [
    .kept "Keys" (listOf item) fun entry keys => { entry with keys := keys.getD [] },
    .checked "AttributesToGet" (listOf text),
    .kept "ConsistentRead" bool fun entry consistent => { entry with consistent },
    .kept "ExpressionAttributeNames" (fieldsOf text) fun entry names => { entry with names },
    .kept "ProjectionExpression" text fun entry projection => { entry with projection }]

/-- What part of a table has used up. -/
def capacity : Decoder Unit :=
  record () [
    .checked "CapacityUnits" measure,
    .checked "ReadCapacityUnits" measure,
    .checked "WriteCapacityUnits" measure]

/-- What a call has used up. -/
def usage : Decoder Unit :=
  record () [
    .checked "TableName" text,
    .checked "CapacityUnits" measure,
    .checked "ReadCapacityUnits" measure,
    .checked "WriteCapacityUnits" measure,
    .checked "Table" capacity,
    .checked "LocalSecondaryIndexes" (fieldsOf capacity),
    .checked "GlobalSecondaryIndexes" (fieldsOf capacity)]

/-- What a write has added to a collection. -/
def growth : Decoder Unit :=
  record () [
    .checked "ItemCollectionKey" item,
    .checked "SizeEstimateRangeGB" (listOf measure)]

/-- The answer to a write of a single item. -/
def written : Decoder (Option Item) :=
  record none [
    .kept "Attributes" item fun _ attributes => attributes,
    .checked "ConsumedCapacity" usage,
    .checked "ItemCollectionMetrics" growth]

/-- A page. -/
def page : Decoder PageAnswer :=
  record {} [
    .kept "Items" (listOf item) fun answer items => { answer with items },
    .kept "LastEvaluatedKey" item fun answer last => { answer with last },
    .kept "Count" integer fun answer count => { answer with count := count.getD 0 },
    .kept "ScannedCount" integer fun answer scanned =>
      { answer with scanned := scanned.getD 0 },
    .checked "ConsumedCapacity" usage]

/-- What a batch of reads found and left over. -/
def found : Decoder BatchGetAnswer :=
  record {} [
    .kept "Responses" (fieldsOf (listOf item)) fun answer found => { answer with found },
    .kept "UnprocessedKeys" (fieldsOf keysEntry) fun answer unprocessed =>
      { answer with unprocessed },
    .checked "ConsumedCapacity" (listOf usage)]

/-- What a batch of writes left over. -/
def leftOver : Decoder (Option (Fields (List WriteEntry))) :=
  record none [
    .kept "UnprocessedItems" (fieldsOf (listOf writeEntry)) fun _ unprocessed => unprocessed,
    .checked "ItemCollectionMetrics" (fieldsOf (listOf growth)),
    .checked "ConsumedCapacity" (listOf usage)]

/-- The answer to a read of a single item. -/
def read : Decoder (Option Item) :=
  record none [
    .kept "Item" item fun _ item => item,
    .checked "ConsumedCapacity" usage]

end Decoder

/-! ### Failures -/

/-- A service that failed for no better known cause. -/
def serviceFailed : Trouble := { text := "service error" }

/-- A failure as far as it is understood whatever its cause. -/
structure Failure where
  code : String
  message : String
deriving DecidableEq

namespace Failure

/-- The code without its namespace and its remark. -/
def bareCode (code : String) : String :=
  let named := code.toList.takeWhile (· ≠ ':')
  match named.dropWhile (· ≠ '#') with
  | [] => String.ofList named
  | _ :: bare => String.ofList bare

/-- The last text among the members with one of these names, if there is any; all of
these texts must be texts. -/
def lastText? (names : List String) (members : List (String × Spelling)) :
    Option (Option String) := do
  let insides := members.filterMap fun (name, part) =>
    match part with
    | .text inside => if names.contains name then some inside else none
    | _ => none
  return (← insides.mapM Json.unescape?).getLast?

/-- The failure in a body that is an object and has a code. -/
def ofSpelling? : Spelling → Option Failure
  | .object members => do
    let code ← lastText? ["code"] members
    let mark ← lastText? ["__type"] members
    let message ← lastText? ["message", "Message", "errorMessage"] members
    if members.all fun (_, part) => part.canPass passedLevels then
      return { code := bareCode (← code <|> mark), message := message.getD "" }
    else none
  | _ => none

/-- What the failure says. -/
def trouble (failure : Failure) : Trouble :=
  { code := some failure.code, message := some failure.message, text := "service error" }

end Failure

namespace Decoder

/-- A failed precondition: it may show the item that is there. -/
def failedCondition : Decoder Unit :=
  record () [.checked "message" text, .checked "Item" item]

/-- What slows the service down. -/
def throttlingReason : Decoder Unit :=
  record () [.checked "reason" text, .checked "resource" text]

/-- A request to slow down: it may give reasons in the member of this name. -/
def throttling (reasons : String) : Decoder Unit :=
  record () [.checked "message" text, .checked reasons (listOf throttlingReason)]

end Decoder

/-! ### What the service says -/

namespace ServiceRequest

/-- The answer to a request, if it is one. -/
def answer? : (request : ServiceRequest) → Spelling → Option request.Answer
  | .getItem _ _ => Decoder.read.required understoodLevels
  | .batchGet _ => Decoder.found.required understoodLevels
  | .putItem _ _ => fun part => (Decoder.written.required understoodLevels part).map fun _ => ()
  | .updateItem _ _ _ => Decoder.written.required understoodLevels
  | .deleteItem _ _ => fun part => (Decoder.written.required understoodLevels part).map fun _ => ()
  | .query _ _ _ => Decoder.page.required understoodLevels
  | .scan _ => Decoder.page.required understoodLevels
  | .batchWrite _ => Decoder.leftOver.required understoodLevels

/-- Does the request write a single item? -/
def writesItem : ServiceRequest → Bool
  | .putItem _ _ | .updateItem _ _ _ | .deleteItem _ _ => true
  | _ => false

/-- The decoder of a failure with this code, if it is one that may come of the request
and carries more than a message. -/
def failureDecoder? (request : ServiceRequest) (code : String) : Option (Decoder Unit) :=
  if code = "ConditionalCheckFailedException" then
    if request.writesItem then some .failedCondition else none
  else if code = "ThrottlingException" then some (.throttling "throttlingReasons")
  else if ["ProvisionedThroughputExceededException", "RequestLimitExceeded"].contains code then
    some (.throttling "ThrottlingReasons")
  else none

/-- The trouble that a failure body tells of. -/
def troubleOfBody (request : ServiceRequest) (body : Spelling) : Trouble :=
  match Failure.ofSpelling? body with
  | none => serviceFailed
  | some failure =>
    match request.failureDecoder? failure.code with
    | none => failure.trouble
    | some decoder =>
      match decoder.required understoodLevels body with
      | some _ => failure.trouble
      | none => serviceFailed

/-- The body that a text spells.  What nests deeper than all that can be understood
and passed over is none. -/
def bodyOfText? (text : String) : Option Spelling :=
  Spelling.parse? (understoodLevels + passedLevels) text

/-- The trouble that a text tells of. -/
def troubleOfText (request : ServiceRequest) (text : String) : Trouble :=
  match bodyOfText? text with
  | none => serviceFailed
  | some body => request.troubleOfBody body

/-- The answer to a request that a text stands for; an empty one has no members. -/
def answerOfText? (request : ServiceRequest) (text : String) : Option request.Answer :=
  if text.isEmpty then request.answer? (.object [])
  else do request.answer? (← bodyOfText? text)

/-- What the service says to a request. -/
def decode (request : ServiceRequest) : Delivery → Except Trouble request.Answer
  | .undelivered => .error { text := "dispatch failure" }
  | .replied status text =>
    if 200 ≤ status ∧ status < 300 then
      match request.answerOfText? text with
      | some answer => .ok answer
      | none => .error serviceFailed
    else .error (request.troubleOfText text)

end ServiceRequest

/-- The codec whose messages and answers are JSON. -/
def Codec.json : Codec where
  encode := ServiceRequest.encode
  decode := ServiceRequest.decode

/-- The store at the other end of a transport, in JSON. -/
def Transport.store {σ : Type} (transport : Transport σ) : Store σ := Codec.json.store transport

end KeywordTable
