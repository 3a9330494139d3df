import KeywordTable.Bytes
import KeywordTable.Service

/-!
# Request bodies

A request goes out as the name of an operation and a JSON object.  Members that were
not asked for are left out, while those that were are kept even when they are
empty.  A value is an object with one member that is named for its kind; numbers
travel as text and bytes in base 64.  A value of a kind that is not known has no
body of its own, so a request that carries one cannot be sent.
-/

namespace KeywordTable

namespace Json

/-- A member that is always there. -/
def always (name : String) (value : Json) : Option (String × Json) := some (name, value)

/-- A member that is left out when there is nothing to say. -/
def whenGiven {α : Type} (name : String) (value : Option α) (toJson : α → Json) :
    Option (String × Json) :=
  value.map fun a => (name, toJson a)

/-- The object of the members that are not left out. -/
def ofMembers (members : List (Option (String × Json))) : Json := .object (members.filterMap id)

end Json

namespace Value

/-- The body of a byte string. -/
def bytesBody (bytes : Bytes) : Json := .text bytes.toBase64

mutual

/-- The body of a value. -/
def body : Value → Json
  | .text content => .object [("S", .text content)]
  | .number digits => .object [("N", .text digits)]
  | .bytes content => .object [("B", bytesBody content)]
  | .bool flag => .object [("BOOL", .bool flag)]
  | .null flag => .object [("NULL", .bool flag)]
  | .textSet members => .object [("SS", .array (members.map .text))]
  | .numberSet members => .object [("NS", .array (members.map .text))]
  | .bytesSet members => .object [("BS", .array (members.map bytesBody))]
  | .list elements => .object [("L", .array (elementBodies elements))]
  | .map fields => .object [("M", .object (fieldBodies fields))]
  | .unknown => .object []

/-- The bodies of the elements of a list. -/
def elementBodies : List Value → List Json
  | [] => []
  | value :: rest => body value :: elementBodies rest

/-- The bodies of named values. -/
def fieldBodies : List (String × Value) → List (String × Json)
  | [] => []
  | (name, value) :: rest => (name, body value) :: fieldBodies rest

end

end Value

/-- The body of an item. -/
def Item.body (item : Item) : Json := .object (Value.fieldBodies item)

/-- The body of a name map. -/
def NameMap.body (names : NameMap) : Json :=
  .object (names.map fun field => (field.1, .text field.2))

/-- The body of an entry of a batch of writes. -/
def WriteEntry.body (entry : WriteEntry) : Json :=
  Json.ofMembers [
    Json.whenGiven "PutRequest" entry.put fun item => .object [("Item", item.body)],
    Json.whenGiven "DeleteRequest" entry.delete fun key => .object [("Key", key.body)]]

/-- The body of keys and of how the items are read that they belong to. -/
def KeysEntry.body (entry : KeysEntry) : Json :=
  Json.ofMembers [
    Json.always "Keys" (.array (entry.keys.map Item.body)),
    Json.whenGiven "ConsistentRead" entry.consistent .bool,
    Json.whenGiven "ExpressionAttributeNames" entry.names NameMap.body,
    Json.whenGiven "ProjectionExpression" entry.projection .text]

/-- The members for a read of single items. -/
def ItemReadCall.members (read : ItemReadCall) : List (Option (String × Json)) :=
  [Json.always "TableName" (.text read.table),
    Json.whenGiven "ConsistentRead" read.consistent .bool,
    Json.whenGiven "ExpressionAttributeNames" read.names NameMap.body,
    Json.whenGiven "ProjectionExpression" read.projection .text]

/-- The members for the read of a page. -/
def PageReadCall.members (read : PageReadCall) : List (Option (String × Json)) :=
  [Json.always "TableName" (.text read.table),
    Json.whenGiven "IndexName" read.index .text,
    Json.whenGiven "ConsistentRead" read.consistent .bool,
    Json.whenGiven "ExclusiveStartKey" read.start Item.body,
    Json.whenGiven "Limit" read.limit fun limit => .integer limit.toInt,
    Json.whenGiven "ExpressionAttributeNames" read.names NameMap.body,
    Json.whenGiven "ExpressionAttributeValues" read.values Item.body,
    Json.whenGiven "FilterExpression" read.filter .text,
    Json.whenGiven "ProjectionExpression" read.projection .text,
    Json.whenGiven "Select" read.select .text]

/-- The members for a write of a single item. -/
def WriteCall.members (write : WriteCall) : List (Option (String × Json)) :=
  [Json.always "TableName" (.text write.table),
    Json.whenGiven "ConditionExpression" write.condition .text,
    Json.whenGiven "ExpressionAttributeNames" write.names NameMap.body,
    Json.whenGiven "ExpressionAttributeValues" write.values Item.body,
    Json.whenGiven "ReturnValues" write.returnValues .text]

namespace ServiceRequest

/-- The operation that a request asks for. -/
def operation : ServiceRequest → String
  | .getItem _ _ => "GetItem"
  | .batchGet _ => "BatchGetItem"
  | .putItem _ _ => "PutItem"
  | .updateItem _ _ _ => "UpdateItem"
  | .deleteItem _ _ => "DeleteItem"
  | .query _ _ _ => "Query"
  | .scan _ => "Scan"
  | .batchWrite _ => "BatchWriteItem"

/-- The members of the body of a request. -/
def members : ServiceRequest → List (Option (String × Json))
  | .getItem key read => Json.always "Key" key.body :: read.members
  | .batchGet tables =>
    [Json.always "RequestItems" (.object (tables.map fun table => (table.1, table.2.body)))]
  | .putItem item write => Json.always "Item" item.body :: write.members
  | .updateItem key update write =>
    Json.always "Key" key.body :: Json.always "UpdateExpression" (.text update) :: write.members
  | .deleteItem key write => Json.always "Key" key.body :: write.members
  | .query keyCondition forward read =>
    Json.always "KeyConditionExpression" (.text keyCondition) ::
      Json.whenGiven "ScanIndexForward" forward .bool :: read.members
  | .scan read => read.members
  | .batchWrite tables =>
    [Json.always "RequestItems" (.object (tables.map fun table =>
      (table.1, .array (table.2.map WriteEntry.body))))]

/-- The message that a request is posted as. -/
def message (request : ServiceRequest) : Message :=
  { operation := request.operation, body := Json.ofMembers request.members }

/-- The message that a request is posted as, unless it carries a value without a body. -/
def encode (request : ServiceRequest) : Except Trouble Message :=
  if request.isKnown then .ok request.message else .error { text := "failed to construct request" }

end ServiceRequest

end KeywordTable
