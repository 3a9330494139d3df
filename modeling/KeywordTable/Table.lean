import KeywordTable.Arguments
import KeywordTable.Batch
import KeywordTable.KeySchema
import KeywordTable.Reader

/-!
# Tables

A table turns keyword arguments into requests.  Keys are drawn from arguments by
the table's key schema, items pass the table's validator on the way in and on the
way out, conditions and changes are read from arguments, and paged reads come
back as readers that are still configuring.

Every operation does all that can fail without the store before it sends
anything.
-/

namespace KeywordTable

/-- A declared table with the validator of its items. -/
structure Table where
  declaration : TableDeclaration
  validator : Validator := Validator.none

/-- What a paged read of a table or one of its indexes goes through. -/
structure ReadSource where
  table : String
  index : Option String
  schema : KeySchema
  validator : Validator
  incomplete : Bool

namespace ReadSource

/-- Read what a key condition finds.  The arguments on key attributes are the key
condition, the others filter what it finds. -/
def query (source : ReadSource) (arguments : Arguments) : Except Fault Reader := do
  let conditions ← arguments.conditions
  let keyConditions := conditions.filter source.schema.testsKey
  let filters := conditions.filter fun condition => !source.schema.testsKey condition
  let keyCondition ← source.schema.keyCondition keyConditions
  return .ofRequest
    { access := .query keyCondition none
      read :=
        { table := source.table, index := source.index, condition := Condition.allOf filters } }
    source.validator source.incomplete

/-- Read everything; all arguments filter what is found. -/
def scan (source : ReadSource) (arguments : Arguments) : Except Fault Reader := do
  let conditions ← arguments.conditions
  return .ofRequest
    { access := .scan
      read :=
        { table := source.table, index := source.index, condition := Condition.allOf conditions } }
    source.validator source.incomplete

end ReadSource

namespace Table

variable {σ : Type} (table : Table)

/-- The name of the table. -/
def name : String := table.declaration.name

/-- The key schema of the table. -/
def schema : KeySchema := table.declaration.schema

/-- The key that consists of these arguments. -/
def key (arguments : Arguments) : Except Fault Item := do
  table.schema.keyFrom (← arguments.values)

/-- The item that is written for a plain value: the validator sees it first. -/
def itemToWrite (plain : Plain) : Except Fault Item := do
  table.validator.check (← plain.toItem) false

/-- The item that is handed to the caller, if there is one: the validator sees it
first. -/
def itemFound (incomplete : Bool) (raw : Option Item) : Except Fault (Option Item) :=
  raw.mapM fun item => table.validator.check item incomplete

/-! ### Single items -/

/-- The request for one item by its full key. -/
def getRequest (key : Arguments) (consistent : Bool) : Except Fault GetItem := do
  return {
    key := ← table.key key
    read := { table := table.name, consistent := if consistent then some true else none } }

/-- Read one item by its full key. -/
def get (store : Store σ) (key : Arguments) (consistent : Bool) : Run σ (Option Item) := do
  let request ← Run.ofExcept (table.getRequest key consistent)
  let raw ← request.send store
  Run.ofExcept (table.itemFound false raw)

/-- The request that creates or replaces an item. -/
def putRequest (plain : Plain) : Except Fault PutItem := do
  return { item := ← table.itemToWrite plain, write := { table := table.name } }

/-- Create or replace an item. -/
def put (store : Store σ) (plain : Plain) : Run σ Unit := do
  let request ← Run.ofExcept (table.putRequest plain)
  request.send store

/-- The request that creates an item whose hash key is new. -/
def putUniqueRequest (plain : Plain) : Except Fault PutItem := do
  let path ← AttributePath.ofNames [table.schema.hashKey]
  return {
    item := ← table.itemToWrite plain
    write := { table := table.name, condition := some (.test path .absent) } }

/-- What a failed precondition means when an item is created. -/
def asHashKeyExists : Fault → Fault
  | .conditionFailed _ => .hashKeyExists
  | fault => fault

/-- Create an item whose hash key is new. -/
def putUnique (store : Store σ) (plain : Plain) : Run σ Unit := do
  let request ← Run.ofExcept (table.putUniqueRequest plain)
  (request.send store).mapFault asHashKeyExists

/-- The request that changes one item: the key is among the arguments, the others
are the changes. -/
def updateRequest (arguments conditions : Arguments) : Except Fault UpdateItem := do
  let (key, rest) ← table.schema.split (← arguments.values)
  let changes ← Change.ofArguments rest
  let conditions ← conditions.conditions
  return {
    key
    changes
    write :=
      { table := table.name
        condition := Condition.allOf conditions
        returnValues := some "UPDATED_NEW" } }

/-- Change one item if the conditions hold; hands back the changed attributes. -/
def update (store : Store σ) (arguments conditions : Arguments) : Run σ (Option Item) := do
  let request ← Run.ofExcept (table.updateRequest arguments conditions)
  let raw ← request.send store
  Run.ofExcept (table.itemFound true raw)

/-- The request that deletes one item by its full key. -/
def deleteRequest (key conditions : Arguments) : Except Fault DeleteItem := do
  let key ← table.key key
  let conditions ← conditions.conditions
  return { key, write := { table := table.name, condition := Condition.allOf conditions } }

/-- Delete one item if the conditions hold. -/
def delete (store : Store σ) (key conditions : Arguments) : Run σ Unit := do
  let request ← Run.ofExcept (table.deleteRequest key conditions)
  request.send store

/-! ### Batches -/

/-- The batch that reads items by their full keys. -/
def getBatchRequest (keys : List Arguments) (consistent : Bool) (attributes : List String) :
    Except Fault BatchGet := do
  let keys ← keys.mapM table.key
  let selection ← Selection.parse attributes
  return {
    keys
    read :=
      { table := table.name
        consistent := if consistent then some true else none
        selection } }

/-- Read items by their full keys, or only some attributes of them.  Items that do
not exist are left out.  Hands back also the keys that a store which needs more
than `rounds` rounds for a group did not get to. -/
def getBatch (store : Store σ) (rounds : Nat) (keys : List Arguments) (consistent : Bool)
    (attributes : List String) : Run σ BatchFound := do
  let batch ← Run.ofExcept (table.getBatchRequest keys consistent attributes)
  let found ← batch.send store rounds
  let items ← Run.ofExcept
    (found.items.mapM fun item => table.validator.check item !batch.read.selection.isEmpty)
  return { found with items }

/-- The batch that creates or replaces items. -/
def putBatchRequest (items : List Plain) : Except Fault BatchWrite := do
  let requests ← items.mapM fun plain => do
    return WriteRequest.put (← table.itemToWrite plain).withoutNulls
  return { table := table.name, requests }

/-- Create or replace items; hands back what a store that needs more than `rounds`
rounds for a group did not get to. -/
def putBatch (store : Store σ) (rounds : Nat) (items : List Plain) :
    Run σ (List WriteRequest) := do
  let batch ← Run.ofExcept (table.putBatchRequest items)
  batch.send store rounds

/-- The batch that deletes items by their full keys. -/
def deleteBatchRequest (keys : List Arguments) : Except Fault BatchWrite := do
  let requests ← keys.mapM fun key => do return WriteRequest.delete (← table.key key)
  return { table := table.name, requests }

/-- Delete items by their full keys; hands back what a store that needs more than
`rounds` rounds for a group did not get to. -/
def deleteBatch (store : Store σ) (rounds : Nat) (keys : List Arguments) :
    Run σ (List WriteRequest) := do
  let batch ← Run.ofExcept (table.deleteBatchRequest keys)
  batch.send store rounds

/-! ### Paged reads -/

/-- A declared index. -/
def index (name : String) : Except Fault IndexDeclaration :=
  match table.declaration.index? name with
  | some index => return index
  | none => throw (.unknownIndex name)

/-- Reads that go through the table itself. -/
def source : ReadSource :=
  { table := table.name
    index := none
    schema := table.schema
    validator := table.validator
    incomplete := false }

/-- Reads that go through an index. -/
def indexSource (index : IndexDeclaration) : ReadSource :=
  { table := table.name
    index := some index.name
    schema := index.schema
    validator := table.validator
    incomplete := index.projection.isPartial }

/-- Read what a key condition finds in the table. -/
def query (arguments : Arguments) : Except Fault Reader := table.source.query arguments

/-- Read the whole table. -/
def scan (arguments : Arguments) : Except Fault Reader := table.source.scan arguments

/-- Read what a key condition finds in an index. -/
def queryIndex (index : IndexDeclaration) (arguments : Arguments) : Except Fault Reader :=
  (table.indexSource index).query arguments

/-- Read a whole index. -/
def scanIndex (index : IndexDeclaration) (arguments : Arguments) : Except Fault Reader :=
  (table.indexSource index).scan arguments

end Table

end KeywordTable
