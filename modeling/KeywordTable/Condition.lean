import KeywordTable.Keyword
import KeywordTable.Placeholders

/-!
# Conditions

A condition is a test of one attribute or a conjunction.  Keyword arguments give
one test each: the keyword's operator says which, the value says against what,
and an operator accepts only the values it can work with (`Operator.test?`).
Every test remembers all of its operand, so operator and operand can be read off
it again (`Test.operator`, `Test.operand`, `operand_of_test?`).

Several arguments must hold together.  One alone stands for itself and none for
no condition at all, so a conjunction made here always joins at least two.

A condition is sent as an expression over tokens.  Tests are written as
comparisons, as ranges and lists, or as functions of the path; a conjunction
joins its conditions by ` AND `, and one that stands inside another is put in
parentheses.  Tokens are taken in reading order: the path of a test before its
operands, and the conditions of a conjunction from left to right.
-/

namespace KeywordTable

/-- The six ways to compare an attribute with a value. -/
inductive Comparison where
  | equal
  | notEqual
  | less
  | lessOrEqual
  | greater
  | greaterOrEqual
deriving DecidableEq

/-- The operators a keyword may end in. -/
inductive Operator where
  | compare (comparison : Comparison)
  | between
  | among
  | beginsWith
  | contains
  | present
  | absent
deriving DecidableEq

instance : Operation Operator where
  all :=
    [.compare .equal, .compare .notEqual, .compare .less, .compare .lessOrEqual,
      .compare .greater, .compare .greaterOrEqual, .between, .among, .beginsWith, .contains,
      .present, .absent]
  token
    | .compare .equal => "eq"
    | .compare .notEqual => "ne"
    | .compare .less => "lt"
    | .compare .lessOrEqual => "lte"
    | .compare .greater => "gt"
    | .compare .greaterOrEqual => "gte"
    | .between => "between"
    | .among => "in"
    | .beginsWith => "begins_with"
    | .contains => "contains"
    | .present => "exists"
    | .absent => "not_exists"
  fallback := .compare .equal

/-- What is asked of one attribute. -/
inductive Test where
  | compare (comparison : Comparison) (operand : Value)
  | between (low high : Value)
  | among (operands : List Value)
  | beginsWith (operand : Value)
  | contains (operand : Value)
  | present
  | absent
deriving DecidableEq

/-- A test of the attribute at a path, or conditions that must all hold. -/
inductive Condition where
  | test (path : AttributePath) (asked : Test)
  | all (conditions : List Condition)

instance : Inhabited Condition := ⟨.all []⟩

/-- How many operands `in` takes at most. -/
def maxAlternatives : Nat := 100

namespace Operator

/-- The test an operator makes of a value it accepts. -/
def test? : Operator → Value → Option Test
  | .compare comparison, operand => some (.compare comparison operand)
  | .between, .list [low, high] => some (.between low high)
  | .among, .list operands =>
    if operands ≠ [] ∧ operands.length ≤ maxAlternatives then some (.among operands) else none
  | .beginsWith, operand => if operand.hasStart then some (.beginsWith operand) else none
  | .contains, operand => some (.contains operand)
  | .present, .bool true => some .present
  | .absent, .bool true => some .absent
  | _, _ => none

/-- What an operator asks of its value, in words. -/
def requirement : Operator → String
  | .between => "between expects a list of exactly two operands"
  | .among => "in expects a list of 1 to " ++ toString maxAlternatives ++ " operands"
  | .beginsWith => "begins_with expects a string or binary operand"
  | .present => "exists takes no operand and must be given `true`"
  | .absent => "not_exists takes no operand and must be given `true`"
  | .compare _ | .contains => "any operand"

end Operator

namespace Test

/-- The operator that makes this test. -/
def operator : Test → Operator
  | .compare comparison _ => .compare comparison
  | .between _ _ => .between
  | .among _ => .among
  | .beginsWith _ => .beginsWith
  | .contains _ => .contains
  | .present => .present
  | .absent => .absent

/-- The value that the operator makes this test of. -/
def operand : Test → Value
  | .compare _ operand | .beginsWith operand | .contains operand => operand
  | .between low high => .list [low, high]
  | .among operands => .list operands
  | .present | .absent => .bool true

end Test

/-- A test comes from its operator. -/
theorem operator_of_test? {operator : Operator} {value : Value} {test : Test}
    (h : operator.test? value = some test) : test.operator = operator := by
  unfold Operator.test? at h
  split at h <;> grind [Test.operator]

/-- A test remembers all of its operand. -/
theorem operand_of_test? {operator : Operator} {value : Value} {test : Test}
    (h : operator.test? value = some test) : test.operand = value := by
  unfold Operator.test? at h
  split at h <;> grind [Test.operand]

namespace Condition

/-- The condition one keyword argument stands for. -/
def ofArgument (keyword : String) (value : Value) : Except Fault Condition := do
  let (path, operator) ← resolve Operator keyword
  match operator.test? value with
  | some asked => return .test path asked
  | none => throw (.malformedCondition keyword operator.requirement)

/-- The conditions of keyword arguments, one each; the first that is none is the
fault. -/
def ofArguments (arguments : Fields Value) : Except Fault (List Condition) :=
  arguments.mapM fun argument => ofArgument argument.1 argument.2

/-- All of the conditions together. -/
def allOf : List Condition → Option Condition
  | [] => none
  | [condition] => some condition
  | conditions => some (.all conditions)

/-- The path that is tested, unless this is a conjunction. -/
def path? : Condition → Option AttributePath
  | .test path _ => some path
  | .all _ => none

/-- The test that is made, unless this is a conjunction. -/
def test? : Condition → Option Test
  | .test _ asked => some asked
  | .all _ => none

/-- The operator of the test, unless this is a conjunction. -/
def operator? (condition : Condition) : Option Operator := condition.test?.map Test.operator

/-- Is this a conjunction? -/
def isAll : Condition → Bool
  | .test _ _ => false
  | .all _ => true

end Condition

/-! ### Expressions -/

/-- How an expression writes a comparison. -/
def Comparison.symbol : Comparison → String
  | .equal => "="
  | .notEqual => "<>"
  | .less => "<"
  | .lessOrEqual => "<="
  | .greater => ">"
  | .greaterOrEqual => ">="

/-- The text of a test whose path already has its text. -/
def Test.render (path : String) : Test → Interning String
  | .compare comparison operand =>
    return path ++ " " ++ comparison.symbol ++ " " ++ (← internValue operand)
  | .between low high => do
    let low ← internValue low
    let high ← internValue high
    return path ++ " BETWEEN " ++ low ++ " AND " ++ high
  | .among operands =>
    return path ++ " IN (" ++ ", ".intercalate (← operands.mapM internValue) ++ ")"
  | .beginsWith operand => return "begins_with(" ++ path ++ ", " ++ (← internValue operand) ++ ")"
  | .contains operand => return "contains(" ++ path ++ ", " ++ (← internValue operand) ++ ")"
  | .present => return "attribute_exists(" ++ path ++ ")"
  | .absent => return "attribute_not_exists(" ++ path ++ ")"

namespace Condition

/-- A conjunction inside another is put in parentheses. -/
def enclose (condition : Condition) (expression : String) : String :=
  if condition.isAll then "(" ++ expression ++ ")" else expression

mutual

/-- The expression of a condition. -/
def render : Condition → Interning String
  | .test path asked => do asked.render (← internPath path)
  | .all conditions => return " AND ".intercalate (← renderEach conditions)

/-- The expressions of the parts of a conjunction, in order. -/
def renderEach : List Condition → Interning (List String)
  | [] => return []
  | condition :: rest => do
    let expression ← render condition
    let expressions ← renderEach rest
    return condition.enclose expression :: expressions

end

/-- The expression of a request's condition, left out when there is none. -/
def render? : Option Condition → Interning (Option String)
  | none => return none
  | some condition => return some (← condition.render)

end Condition

end KeywordTable
