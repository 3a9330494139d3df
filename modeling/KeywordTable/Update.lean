import KeywordTable.Decimal
import KeywordTable.Keyword
import KeywordTable.Placeholders

/-!
# Updates

An update is a list of changes, each to one attribute and all to different ones.
Keyword arguments give one change each.  A null value removes the attribute and
goes with a plain `set` only; every other function accepts the values it can work
with (`Change.ofValue?`).

Counting up and down both add a number; counting down adds it with the sign
turned, on the text of the number (`negated`): a minus in front is taken away,
a number that is zero as a double stays as it is, and any other text gets a
minus in front.

In the expression of an update its changes are grouped into four clauses, which
stand in a fixed order and are left out when they are empty; inside a clause the
changes keep their order.  Tokens, however, are taken change by change in the order
of the update, the target before the source and the source before the value, so the
numbering need not follow the text.
-/

namespace KeywordTable

/-- The functions a keyword may end in. -/
inductive UpdateFunction where
  | set
  | plus
  | minus
  | ifNotExists
  | append
  | add
  | delete
deriving DecidableEq

instance : Operation UpdateFunction where
  all := [.set, .plus, .minus, .ifNotExists, .append, .add, .delete]
  token
    | .set => "set"
    | .plus => "plus"
    | .minus => "minus"
    | .ifNotExists => "if_not_exists"
    | .append => "append"
    | .add => "add"
    | .delete => "delete"
  fallback := .set

/-- What an attribute is set to: a value, or something computed by the store from
a value and the attribute at a source path. -/
inductive Assigned where
  | literal (value : Value)
  | ifNotExists (source : AttributePath) (value : Value)
  | sum (source : AttributePath) (value : Value)
  | difference (source : AttributePath) (value : Value)
  | appended (source : AttributePath) (value : Value)
deriving DecidableEq

/-- A change to the attribute at a path. -/
inductive Change where
  | set (target : AttributePath) (assigned : Assigned)
  | remove (target : AttributePath)
  | add (target : AttributePath) (value : Value)
  | delete (target : AttributePath) (value : Value)
deriving DecidableEq

/-- Is the text a numeral whose nearest double is zero? -/
def isZeroText (text : String) : Bool :=
  match Decimal.ofText? text with
  | some decimal => decimal.vanishes
  | none => false

/-- The text of a number with its sign turned. -/
def negated (text : String) : String :=
  match text.toList with
  | '-' :: rest => String.ofList rest
  | _ => if isZeroText text then text else "-" ++ text

namespace Change

/-- The path that is changed. -/
def target : Change → AttributePath
  | .set target _ | .remove target | .add target _ | .delete target _ => target

/-- The change a function makes of a value that is not null, if it accepts it. -/
def ofValue? (target : AttributePath) : UpdateFunction → Value → Option Change
  | .set, value => some (.set target (.literal value))
  | .ifNotExists, value => some (.set target (.ifNotExists target value))
  | .append, value => if value.isList then some (.set target (.appended target value)) else none
  | .plus, .number digits => some (.add target (.number digits))
  | .minus, .number digits => some (.add target (.number (negated digits)))
  | .add, value => if value.isNumber || value.isSet then some (.add target value) else none
  | .delete, value => if value.isSet then some (.delete target value) else none
  | _, _ => none

/-- What a function asks of its value, in words. -/
def requirement : UpdateFunction → String
  | .append => "append needs a list"
  | .plus | .minus => "needs a number"
  | .add => "add needs a number or a set"
  | .delete => "delete needs a set"
  | .set | .ifNotExists => "any value"

/-- The change one keyword argument stands for. -/
def ofArgument (keyword : String) (value : Value) : Except Fault Change := do
  let (target, function) ← resolve UpdateFunction keyword
  if value.isNull then
    if function = .set then return .remove target
    else throw (.malformedUpdate keyword "only a plain set can remove an attribute")
  else
    match ofValue? target function value with
    | some change => return change
    | none => throw (.malformedUpdate keyword (requirement function))

/-- The changes of keyword arguments, one each, given the paths that are already
changed; the first argument that is no change or changes a path again is the
fault. -/
def ofArgumentsAfter (targets : List AttributePath) :
    Fields Value → Except Fault (List Change)
  | [] => return []
  | (keyword, value) :: rest => do
    let change ← ofArgument keyword value
    if change.target ∈ targets then throw (.duplicateTarget change.target.display)
    let changes ← ofArgumentsAfter (change.target :: targets) rest
    return change :: changes

/-- The changes of keyword arguments; there must be at least one. -/
def ofArguments (arguments : Fields Value) : Except Fault (List Change) :=
  if arguments.isEmpty then throw (.malformedUpdate "" "nothing to update")
  else ofArgumentsAfter [] arguments

end Change

/-! ### Expressions -/

/-- The text of what an attribute is set to. -/
def Assigned.render : Assigned → Interning String
  | .literal value => internValue value
  | .ifNotExists source value => do
    let source ← internPath source
    let value ← internValue value
    return "if_not_exists(" ++ source ++ ", " ++ value ++ ")"
  | .sum source value => do
    let source ← internPath source
    let value ← internValue value
    return source ++ " + " ++ value
  | .difference source value => do
    let source ← internPath source
    let value ← internValue value
    return source ++ " - " ++ value
  | .appended source value => do
    let source ← internPath source
    let value ← internValue value
    return "list_append(" ++ source ++ ", " ++ value ++ ")"

/-- The clauses of an update. -/
inductive Clause where
  | set
  | remove
  | add
  | delete
deriving DecidableEq

namespace Clause

/-- The clauses in the order in which they are written. -/
def all : List Clause := [.set, .remove, .add, .delete]

/-- The word a clause begins with. -/
def word : Clause → String
  | .set => "SET"
  | .remove => "REMOVE"
  | .add => "ADD"
  | .delete => "DELETE"

/-- A clause with its changes, left out when there are none. -/
def render? (clause : Clause) (changes : List String) : Option String :=
  if changes.isEmpty then none else some (clause.word ++ " " ++ ", ".intercalate changes)

end Clause

namespace Change

/-- The clause a change belongs to. -/
def clause : Change → Clause
  | .set _ _ => .set
  | .remove _ => .remove
  | .add _ _ => .add
  | .delete _ _ => .delete

/-- The text of a change inside its clause. -/
def render : Change → Interning String
  | .set target assigned => do
    let target ← internPath target
    return target ++ " = " ++ (← assigned.render)
  | .remove target => internPath target
  | .add target value | .delete target value => do
    let target ← internPath target
    return target ++ " " ++ (← internValue value)

/-- The text of a change together with its clause. -/
def renderTagged (change : Change) : Interning (Clause × String) := do
  return (change.clause, ← change.render)

/-- The texts that belong to a clause, in order. -/
def textsOf (clause : Clause) (texts : List (Clause × String)) : List String :=
  (texts.filter fun text => text.1 = clause).map Prod.snd

/-- The expression of a list of changes. -/
def renderAll (changes : List Change) : Interning String := do
  let texts ← changes.mapM renderTagged
  return " ".intercalate (Clause.all.filterMap fun clause => clause.render? (textsOf clause texts))

end Change

end KeywordTable
