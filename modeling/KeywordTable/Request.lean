import KeywordTable.Condition
import KeywordTable.Store
import KeywordTable.Update

/-!
# Requests

A request says what to do in terms of paths, conditions and changes; becoming a
call, it writes these out as expressions.  All expressions of one request take
their tokens from one supply that starts empty, in a fixed order: the key
condition of a query or the changes of an update first, then the filter or the
precondition, then the projection.

Null attributes are not stored: putting an item sends it without them.
-/

namespace KeywordTable

/-- How single items are read. -/
structure ItemRead where
  table : String
  consistent : Option Bool := none
  selection : Selection := {}

/-- How pages of items are read. -/
structure PageRead where
  table : String
  consistent : Option Bool := none
  selection : Selection := {}
  condition : Option Condition := none
  start : Option Item := none
  index : Option String := none
  limit : Option Int32 := none
  select : Option String := none

/-- How a single item is written. -/
structure Write where
  table : String
  condition : Option Condition := none
  returnValues : Option String := none

/-- The read as it is sent. -/
def ItemRead.toCall (read : ItemRead) : ItemReadCall :=
  let (projection, supply) := read.selection.render? {}
  { table := read.table
    consistent := read.consistent
    names := supply.nameMap?
    projection }

/-- The read as it is sent, after some expressions took their tokens. -/
def PageRead.toCall (read : PageRead) (supply : Placeholders) : PageReadCall :=
  let (filter, supply) := Condition.render? read.condition supply
  let (projection, supply) := read.selection.render? supply
  { table := read.table
    index := read.index
    consistent := read.consistent
    start := read.start
    limit := read.limit
    names := supply.nameMap?
    values := supply.valueMap?
    filter
    projection
    select := read.select }

/-- The write as it is sent, after some expressions took their tokens. -/
def Write.toCall (write : Write) (supply : Placeholders) : WriteCall :=
  let (condition, supply) := Condition.render? write.condition supply
  { table := write.table
    condition
    names := supply.nameMap?
    values := supply.valueMap?
    returnValues := write.returnValues }

/-- Read one item by its key. -/
structure GetItem where
  key : Item
  read : ItemRead

/-- Create or replace one item. -/
structure PutItem where
  item : Item
  write : Write

/-- Change one item. -/
structure UpdateItem where
  key : Item
  changes : List Change
  write : Write

/-- Delete one item. -/
structure DeleteItem where
  key : Item
  write : Write

/-- What is read page by page: the items of a key condition in the order of the
range key, or everything in no particular order. -/
inductive Access where
  | query (keyCondition : Condition) (forward : Option Bool)
  | scan

/-- Read a page of items. -/
structure PageRequest where
  access : Access
  read : PageRead

namespace GetItem

/-- The request as it is sent. -/
def toCall (request : GetItem) : Call := .getItem request.key request.read.toCall

/-- Send the request. -/
def send {σ : Type} (request : GetItem) (store : Store σ) : Run σ (Option Item) :=
  store.answer request.toCall

end GetItem

namespace PutItem

/-- The request as it is sent. -/
def toCall (request : PutItem) : Call :=
  .putItem request.item.withoutNulls (request.write.toCall {})

/-- Send the request. -/
def send {σ : Type} (request : PutItem) (store : Store σ) : Run σ Unit :=
  store.answer request.toCall

end PutItem

namespace UpdateItem

/-- The update expression, and what is sent beside it. -/
def expressions (request : UpdateItem) : String × WriteCall :=
  let (update, supply) := Change.renderAll request.changes {}
  (update, request.write.toCall supply)

/-- The request as it is sent. -/
def toCall (request : UpdateItem) : Call :=
  .updateItem request.key request.expressions.1 request.expressions.2

/-- Send the request. -/
def send {σ : Type} (request : UpdateItem) (store : Store σ) : Run σ (Option Item) :=
  store.answer request.toCall

end UpdateItem

namespace DeleteItem

/-- The request as it is sent. -/
def toCall (request : DeleteItem) : Call := .deleteItem request.key (request.write.toCall {})

/-- Send the request. -/
def send {σ : Type} (request : DeleteItem) (store : Store σ) : Run σ Unit :=
  store.answer request.toCall

end DeleteItem

namespace PageRequest

/-- The key condition's expression, and what is sent beside it. -/
def queryExpressions (keyCondition : Condition) (read : PageRead) : String × PageReadCall :=
  let (expression, supply) := keyCondition.render {}
  (expression, read.toCall supply)

/-- The request as it is sent. -/
def toCall (request : PageRequest) : Call :=
  match request.access with
  | .query keyCondition forward =>
    let (expression, read) := queryExpressions keyCondition request.read
    .query expression forward read
  | .scan => .scan (request.read.toCall {})

/-- Send the request. -/
def send {σ : Type} (request : PageRequest) (store : Store σ) : Run σ Page :=
  match request.access with
  | .query keyCondition forward =>
    let (expression, read) := queryExpressions keyCondition request.read
    store.answer (.query expression forward read)
  | .scan => store.answer (.scan (request.read.toCall {}))

end PageRequest

end KeywordTable
