import KeywordTable.Condition

/-!
# Key schemas

The items of a table or an index are told apart by a hash key attribute and, where
one is declared, a range key attribute.  A key is complete when it has them all.

A key is drawn from given fields in three ways: `keyFrom` takes the fields for the
key and refuses any other, `split` takes the key out of a mixed list and returns
the rest in its order, and `keyOf` takes the key out of an item.

The tests of key attributes in a query make up its key condition.  The hash key
can only be compared for equality and has to be tested; the range key can be
tested by whatever compares its order.

A table is declared by its name, its key schema and its indexes.  An index has a
key schema of its own and holds all attributes of an item or only some of them;
items read through one that holds only some may lack attributes.  The place of the
store is declared in the environment, where a variable that is empty counts as one
that is not set.
-/

namespace KeywordTable

/-- The names of the key attributes. -/
structure KeySchema where
  hashKey : String
  rangeKey : Option String := none
deriving DecidableEq

namespace KeySchema

variable (schema : KeySchema)

/-- Is this the name of a key attribute? -/
def isKey (name : String) : Bool := schema.hashKey == name || schema.rangeKey == some name

/-- The key attributes are the hash key and the range key, where one is declared. -/
theorem isKey_iff {schema : KeySchema} {name : String} :
    schema.isKey name = true ↔ schema.hashKey = name ∨ schema.rangeKey = some name := by
  simp [isKey]

/-- Does this path lead to a key attribute itself? -/
def isKeyPath (path : AttributePath) : Bool := path.isTopLevel && schema.isKey path.root

/-- The key, if no attribute of it is missing; the hash key is looked for first. -/
def complete (key : Item) : Except Fault Item :=
  if !Fields.has key schema.hashKey then
    throw (.invalidKey ("missing hash key `" ++ schema.hashKey ++ "`"))
  else
    match schema.rangeKey with
    | none => return key
    | some rangeKey =>
      if Fields.has key rangeKey then return key
      else throw (.invalidKey ("missing range key `" ++ rangeKey ++ "`"))

/-- A key is complete if it has all key attributes. -/
theorem complete_eq_ok_iff {schema : KeySchema} {key result : Item} :
    schema.complete key = .ok result ↔
      key = result ∧ ∀ name, schema.isKey name = true → Fields.has key name = true := by
  have hall : (∀ name, schema.isKey name = true → Fields.has key name = true) ↔
      Fields.has key schema.hashKey = true ∧
        ∀ name, schema.rangeKey = some name → Fields.has key name = true := by
    simp [isKey_iff, or_imp, forall_and]
  rw [hall]
  unfold complete
  split
  · next hmissing => simp_all
  · next hhash =>
    split
    · next hnone => simp_all [pure, Except.pure]
    · next rangeKey hsome =>
      split
      · next hrange => simp_all [pure, Except.pure]
      · next hmissing => simp_all

/-- A key that is not complete is no key. -/
theorem eq_invalidKey_of_complete {schema : KeySchema} {key : Item} {fault : Fault}
    (h : schema.complete key = .error fault) : ∃ reason, fault = .invalidKey reason := by
  unfold complete at h
  split at h
  · cases h
    exact ⟨_, rfl⟩
  · split at h
    · cases h
    · split at h
      · cases h
      · cases h
        exact ⟨_, rfl⟩

/-- The key that consists of the given fields and no other. -/
def keyFrom (fields : Fields Value) : Except Fault Item :=
  match fields.find? fun field => !schema.isKey field.1 with
  | some field => throw (.invalidKey ("`" ++ field.1 ++ "` is not a key attribute"))
  | none => schema.complete (Fields.canonical fields)

/-- The key among the given fields, and the other fields in their order. -/
def split (fields : Fields Value) : Except Fault (Item × Fields Value) := do
  let key ← schema.complete (Fields.canonical (fields.filter fun field => schema.isKey field.1))
  return (key, fields.filter fun field => !schema.isKey field.1)

/-- The key of an item. -/
def keyOf (item : Item) : Except Fault Item :=
  schema.complete (item.filter fun field => schema.isKey field.1)

/-! ### Key conditions -/

/-- Can the condition stand in a key condition?  On the hash key only equality
can, on the range key only what compares its order. -/
def checkKeyTest (condition : Condition) : Except Fault Unit :=
  match condition with
  | .all _ => return
  | .test path asked =>
    if path.root = schema.hashKey then
      match asked with
      | .compare .equal _ => return
      | _ => throw (.malformedCondition schema.hashKey "the hash key can only be queried with eq")
    else
      match asked with
      | .compare .notEqual _ | .among _ | .contains _ | .present | .absent =>
        throw (.malformedCondition path.root
          "the range key supports eq, lt, lte, gt, gte, between and begins_with")
      | _ => return

/-- Is this a test of the hash key? -/
def testsHashKey (condition : Condition) : Bool :=
  condition.path?.any fun path => path.root == schema.hashKey

/-- The key condition that consists of the given conditions, each of which tests a
key attribute; the hash key must be among them. -/
def keyCondition (conditions : List Condition) : Except Fault Condition := do
  conditions.forM schema.checkKeyTest
  let missing : Fault :=
    .invalidKey ("query requires an eq condition on hash key `" ++ schema.hashKey ++ "`")
  if conditions.any schema.testsHashKey then
    match Condition.allOf conditions with
    | some condition => return condition
    | none => throw missing
  else throw missing

/-- Is this a test of a key attribute itself? -/
def testsKey (condition : Condition) : Bool := condition.path?.any schema.isKeyPath

end KeySchema

/-! ### Declarations -/

/-- The attributes an index holds. -/
inductive Projection where
  | all
  | keys
  | include (names : List String)
deriving DecidableEq

/-- May items read through the index lack attributes? -/
def Projection.isPartial : Projection → Bool
  | .all => false
  | .keys | .include _ => true

/-- An index is partial unless it holds all attributes. -/
theorem Projection.isPartial_eq (projection : Projection) :
    projection.isPartial = decide (projection ≠ .all) := by
  cases projection <;> rfl

/-- A declared index. -/
structure IndexDeclaration where
  name : String
  schema : KeySchema
  projection : Projection := .all
deriving DecidableEq

/-- A declared table. -/
structure TableDeclaration where
  name : String
  schema : KeySchema
  indexes : List IndexDeclaration := []
deriving DecidableEq

/-- The first index of this name. -/
def TableDeclaration.index? (table : TableDeclaration) (name : String) :
    Option IndexDeclaration :=
  table.indexes.find? fun index => index.name == name

/-- Where the store is. -/
structure StoreLocation where
  endpoint : Option String := none
  region : Option String := none
deriving DecidableEq

namespace StoreLocation

/-- The variable that holds the endpoint. -/
def endpointVariable : String := "DYNAMODB_ENDPOINT_URL"

/-- The variable that holds the region. -/
def regionVariable : String := "AWS_REGION"

/-- The location that an environment declares. -/
def ofEnvironment (lookup : String → Option String) : StoreLocation :=
  { endpoint := (lookup endpointVariable).filter (· ≠ "")
    region := (lookup regionVariable).filter (· ≠ "") }

end StoreLocation

end KeywordTable
