import KeywordTable.Condition
import KeywordTable.Plain
import KeywordTable.Update

/-!
# Keyword arguments

Keyword arguments are plain values by keyword, in the order in which the caller
gave them.  All their values are given their form in a table before the first
keyword is looked at, so a value that has none is the fault even when an earlier
keyword makes no sense.

The compilers show what arguments come to without sending anything: the tree, the
expressions over tokens of their own, and what the tokens stand for.
-/

namespace KeywordTable

/-- Keyword arguments as callers give them, each name once. -/
abbrev Arguments := Fields Plain

/-- The values of keyword arguments, all of them before anything else is done. -/
def Arguments.values (arguments : Arguments) : Except Fault (Fields Value) :=
  Plain.fieldsToValues arguments

/-- The conditions of keyword arguments, all values before the first keyword. -/
def Arguments.conditions (arguments : Arguments) : Except Fault (List Condition) := do
  Condition.ofArguments (← arguments.values)

/-- The changes of keyword arguments, all values before the first keyword. -/
def Arguments.changes (arguments : Arguments) : Except Fault (List Change) := do
  Change.ofArguments (← arguments.values)

/-! ### Compiling -/

/-- A condition with its expression and the tokens the expression took. -/
structure CompiledCondition where
  condition : Option Condition
  expression : Option String
  placeholders : Placeholders

/-- Compile conditions that must all hold, with tokens of their own. -/
def CompiledCondition.ofConditions (conditions : List Condition) : CompiledCondition :=
  let condition := Condition.allOf conditions
  let (expression, placeholders) := Condition.render? condition {}
  { condition, expression, placeholders }

/-- An update and its precondition with their expressions and the tokens these
took. -/
structure CompiledUpdate where
  changes : List Change
  condition : Option Condition
  expression : String
  conditionExpression : Option String
  placeholders : Placeholders

/-- Compile changes and conditions that must all hold; the update takes its
tokens first. -/
def CompiledUpdate.ofChanges (changes : List Change) (conditions : List Condition) :
    CompiledUpdate :=
  let condition := Condition.allOf conditions
  let (expression, supply) := Change.renderAll changes {}
  let (conditionExpression, placeholders) := Condition.render? condition supply
  { changes, condition, expression, conditionExpression, placeholders }

/-- Compile keyword arguments into a condition. -/
def Arguments.compileCondition (arguments : Arguments) : Except Fault CompiledCondition := do
  return .ofConditions (← arguments.conditions)

/-- Compile keyword arguments into an update and its precondition. -/
def Arguments.compileUpdate (arguments conditions : Arguments) : Except Fault CompiledUpdate := do
  let changes ← arguments.changes
  let conditions ← conditions.conditions
  return .ofChanges changes conditions

end KeywordTable
