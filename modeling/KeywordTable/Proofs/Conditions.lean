import KeywordTable.Arguments
import KeywordTable.Proofs.Keywords
import Mathlib.Data.List.Forall2

/-!
# What the condition compiler accepts

An argument is `WellFormed` if its keyword resolves and the operator `Accepts` the value.
Such an argument is compiled to a leaf that keeps the path, the operator and all of the value
(`Keeps`); any other `Offends`, by its keyword or by its value.  There is no third way
(`wellFormed_or_offends`), so what the compiler makes of an argument follows from what it makes
of these two.  Lists of arguments add only that the first failure counts.

The main result, `compilesConditions`, says for every list of arguments whether it is
compiled, to what tree, and with which fault it is refused.
-/

namespace KeywordTable

/-! ### Leaves -/

/-- One test of one attribute. -/
structure Leaf where
  path : AttributePath
  asked : Test

/-- The condition that makes this test and no other. -/
def Leaf.condition (leaf : Leaf) : Condition := .test leaf.path leaf.asked

/-- The condition makes these tests, in this order and no others; where there are none to
make, it is absent. -/
inductive Joins : Option Condition → List Leaf → Prop
  | none : Joins none []
  | one (leaf : Leaf) : Joins (some leaf.condition) [leaf]
  | several (first second : Leaf) (rest : List Leaf) :
      Joins (some (.all ((first :: second :: rest).map Leaf.condition)))
        (first :: second :: rest)

/-- Leaves that are written as one condition are one leaf. -/
theorem Leaf.condition_injective : Function.Injective Leaf.condition := by
  rintro ⟨path, asked⟩ ⟨path', asked'⟩ h
  cases h
  rfl

/-- Leaves are joined by the condition that all of them hold. -/
theorem joins_allOf (leaves : List Leaf) :
    Joins (Condition.allOf (leaves.map Leaf.condition)) leaves := by
  rcases leaves with _ | ⟨first, _ | ⟨second, rest⟩⟩
  · exact .none
  · exact .one first
  · exact .several first second rest

/-- No other condition joins them. -/
theorem Joins.eq_allOf {condition : Option Condition} {leaves : List Leaf}
    (h : Joins condition leaves) : condition = Condition.allOf (leaves.map Leaf.condition) := by
  cases h <;> rfl

/-- Only no leaves are joined by no condition. -/
theorem Joins.eq_none_iff {condition : Option Condition} {leaves : List Leaf}
    (h : Joins condition leaves) : condition = Option.none ↔ leaves = [] := by
  cases h <;> simp

/-- There is a condition that makes some tests, if there are any. -/
theorem exists_joins {leaves : List Leaf} (h : leaves ≠ []) :
    ∃ condition, Joins (some condition) leaves := by
  obtain ⟨condition, hall⟩ :=
    Option.ne_none_iff_exists'.mp (mt (joins_allOf leaves).eq_none_iff.mp h)
  exact ⟨condition, hall ▸ joins_allOf leaves⟩

/-! ### Operators and their values -/

namespace Operator

/-- The operator can work with the value. -/
def Accepts : Operator → Value → Prop
  | .compare _, _ | .contains, _ => True
  | .between, value => ∃ low high, value = .list [low, high]
  | .among, value =>
    ∃ operands, value = .list operands ∧ 1 ≤ operands.length ∧ operands.length ≤ 100
  | .beginsWith, value => (∃ text, value = .text text) ∨ ∃ bytes, value = .bytes bytes
  | .present, value | .absent, value => value = .bool true

/-- Texts and byte strings have a start. -/
theorem hasStart_iff {value : Value} :
    value.hasStart = true ↔ (∃ text, value = .text text) ∨ ∃ bytes, value = .bytes bytes := by
  cases value <;> simp [Value.hasStart]

/-- **An operator makes a test** of the values it accepts and of no others. -/
theorem exists_test?_eq_some_iff {operator : Operator} {value : Value} :
    (∃ asked, operator.test? value = some asked) ↔ operator.Accepts value := by
  constructor
  · rintro ⟨asked, hasked⟩
    unfold test? at hasked
    split at hasked
    case h_1 => trivial
    case h_2 low high => exact ⟨low, high, rfl⟩
    case h_3 operands =>
      split at hasked
      · next hlength => exact ⟨operands, rfl, List.length_pos_of_ne_nil hlength.1, hlength.2⟩
      · cases hasked
    case h_4 =>
      split at hasked
      · next hstart => exact hasStart_iff.mp hstart
      · cases hasked
    case h_5 => trivial
    case h_6 => rfl
    case h_7 => rfl
    case h_8 => cases hasked
  · intro haccepts
    cases operator with
    | compare comparison => exact ⟨_, rfl⟩
    | contains => exact ⟨_, rfl⟩
    | between =>
        obtain ⟨low, high, rfl⟩ := haccepts
        exact ⟨_, rfl⟩
    | among =>
        obtain ⟨operands, rfl, hpos, hmax⟩ := haccepts
        exact ⟨_, if_pos ⟨List.ne_nil_of_length_pos hpos, hmax⟩⟩
    | beginsWith => exact ⟨_, if_pos (hasStart_iff.mpr haccepts)⟩
    | present =>
        cases haccepts
        exact ⟨_, rfl⟩
    | absent =>
        cases haccepts
        exact ⟨_, rfl⟩

end Operator

/-! ### Single arguments -/

/-- The keyword resolves, to an operator that accepts the value. -/
def WellFormed (argument : String × Value) : Prop :=
  ∃ path operator, resolve Operator argument.1 = .ok (path, operator) ∧
    operator.Accepts argument.2

/-- The leaf keeps all that the argument says. -/
structure Keeps (argument : String × Value) (leaf : Leaf) : Prop where
  /-- Its path and its operator are what the keyword resolves to. -/
  resolved : ∃ path operator, resolve Operator argument.1 = .ok (path, operator) ∧
    leaf.condition.path? = some path ∧ leaf.condition.operator? = some operator
  /-- The value can be put together again from what is tested. -/
  operand : leaf.asked.operand = argument.2

/-- The leaf tests the attribute that the keyword names, by the operator that it asks for. -/
theorem Keeps.resolve_eq {argument : String × Value} {leaf : Leaf} (h : Keeps argument leaf) :
    resolve Operator argument.1 = .ok (leaf.path, leaf.asked.operator) := by
  obtain ⟨path, operator, hresolve, hpath, hoperator⟩ := h.resolved
  cases hpath
  cases hoperator
  exact hresolve

/-- The argument is refused with this fault, which shows its keyword. -/
inductive Offends : String × Value → Fault → Prop
  | ofKeyword (keyword : String) (value : Value)
      (h : ∀ found, resolve Operator keyword ≠ .ok found) :
      Offends (keyword, value) (.invalidPath keyword)
  | ofValue (keyword : String) (value : Value) (path : AttributePath) (operator : Operator)
      (hresolve : resolve Operator keyword = .ok (path, operator))
      (hvalue : ¬ operator.Accepts value) :
      Offends (keyword, value) (.malformedCondition keyword operator.requirement)

/-- An argument that is not well-formed offends by its keyword or, if that resolves, by its
value. -/
theorem wellFormed_or_offends (argument : String × Value) :
    WellFormed argument ∨ ∃ fault, Offends argument fault := by
  obtain ⟨keyword, value⟩ := argument
  by_cases hfound : ∃ found, resolve Operator keyword = .ok found
  · obtain ⟨⟨path, operator⟩, hresolve⟩ := hfound
    by_cases haccepts : operator.Accepts value
    · exact .inl ⟨path, operator, hresolve, haccepts⟩
    · exact .inr ⟨_, .ofValue keyword value path operator hresolve haccepts⟩
  · exact .inr ⟨_, .ofKeyword keyword value (not_exists.mp hfound)⟩

namespace Condition

variable {argument : String × Value} {condition : Condition} {fault : Fault}

/-- A well-formed argument is compiled to a leaf that keeps all of it. -/
theorem ofArgument_of_wellFormed (h : WellFormed argument) :
    ∃ leaf : Leaf, ofArgument argument.1 argument.2 = .ok leaf.condition ∧
      Keeps argument leaf := by
  obtain ⟨path, operator, hresolve, haccepts⟩ := h
  obtain ⟨asked, hasked⟩ := Operator.exists_test?_eq_some_iff.mpr haccepts
  let leaf : Leaf := ⟨path, asked⟩
  have hoperator : leaf.condition.operator? = some operator :=
    congrArg some (operator_of_test? hasked)
  have hkeeps : Keeps argument leaf :=
    ⟨⟨path, operator, hresolve, rfl, hoperator⟩, operand_of_test? hasked⟩
  refine ⟨leaf, ?_, hkeeps⟩
  simp only [ofArgument, hresolve, bind, Except.bind, hasked]
  rfl

/-- An argument that offends is refused with that fault. -/
theorem ofArgument_of_offends {keyword : String} {value : Value}
    (h : Offends (keyword, value) fault) : ofArgument keyword value = .error fault := by
  cases h with
  | ofKeyword _ _ hnothing =>
      cases hresolve : resolve Operator keyword with
      | ok found => exact absurd hresolve (hnothing found)
      | error fault =>
          rw [ofArgument, hresolve, eq_invalidPath_of_resolve hresolve]
          rfl
  | ofValue _ _ path operator hresolve hvalue =>
      have hnone : operator.test? value = none := by
        rw [Option.eq_none_iff_forall_ne_some]
        intro asked hasked
        exact hvalue (Operator.exists_test?_eq_some_iff.mp ⟨asked, hasked⟩)
      simp only [ofArgument, hresolve, bind, Except.bind, hnone]
      rfl

/-- A condition that comes of an argument is one test, which keeps all of the argument. -/
theorem exists_leaf_of_ofArgument {keyword : String} {value : Value}
    (h : ofArgument keyword value = .ok condition) :
    ∃ leaf : Leaf, condition = leaf.condition ∧ Keeps (keyword, value) leaf := by
  rcases wellFormed_or_offends (keyword, value) with hwell | ⟨fault, hoffends⟩
  · obtain ⟨leaf, hleaf, hkeeps⟩ := ofArgument_of_wellFormed hwell
    have heq : condition = leaf.condition := Except.ok.inj (h.symm.trans hleaf)
    exact ⟨leaf, heq, hkeeps⟩
  · rw [ofArgument_of_offends hoffends] at h
    cases h

/-- **An argument is compiled** exactly if it is well-formed. -/
theorem exists_ofArgument_eq_ok_iff :
    (∃ condition, ofArgument argument.1 argument.2 = .ok condition) ↔ WellFormed argument := by
  constructor
  · intro h
    obtain ⟨condition, hcondition⟩ := h
    rcases wellFormed_or_offends argument with hwell | ⟨fault, hoffends⟩
    · exact hwell
    · rw [ofArgument_of_offends hoffends] at hcondition
      cases hcondition
  · intro hwell
    obtain ⟨leaf, hleaf, _⟩ := ofArgument_of_wellFormed hwell
    exact ⟨leaf.condition, hleaf⟩

/-- **An argument is refused** with the fault by which it offends. -/
theorem ofArgument_eq_error_iff :
    ofArgument argument.1 argument.2 = .error fault ↔ Offends argument fault := by
  constructor
  · intro h
    rcases wellFormed_or_offends argument with hwell | ⟨other, hoffends⟩
    · obtain ⟨leaf, hleaf, _⟩ := ofArgument_of_wellFormed hwell
      rw [hleaf] at h
      cases h
    · have heq : fault = other :=
        Except.error.inj (h.symm.trans (ofArgument_of_offends hoffends))
      rw [heq]
      exact hoffends
  · exact ofArgument_of_offends

/-! ### Lists of arguments -/

/-- The first argument makes a condition, and the others make theirs behind it. -/
theorem ofArguments_cons_eq_ok {keyword : String} {value : Value} {rest : Fields Value}
    {conditions : List Condition} :
    ofArguments ((keyword, value) :: rest) = .ok conditions ↔
      ∃ condition others, ofArgument keyword value = .ok condition ∧
        ofArguments rest = .ok others ∧ conditions = condition :: others := by
  rw [ofArguments, List.mapM_cons]
  exact map₂_eq_ok_iff

/-- Nothing is lost: there is one leaf for each argument, in their order. -/
theorem exists_leaves_of_ofArguments {arguments : Fields Value} {conditions : List Condition}
    (h : ofArguments arguments = .ok conditions) :
    ∃ leaves, List.Forall₂ Keeps arguments leaves ∧ conditions = leaves.map Leaf.condition := by
  induction arguments generalizing conditions with
  | nil =>
      cases h
      exact ⟨[], .nil, rfl⟩
  | cons argument rest ih =>
      obtain ⟨condition, others, hcondition, hothers, rfl⟩ := ofArguments_cons_eq_ok.mp h
      obtain ⟨leaf, rfl, hkeeps⟩ := exists_leaf_of_ofArgument hcondition
      obtain ⟨leaves, hleaves, rfl⟩ := ih hothers
      exact ⟨leaf :: leaves, .cons hkeeps hleaves, rfl⟩

end Condition

/-! ### The compiler -/

/-- Compile arguments whose values already have their form in a table. -/
def CompiledCondition.ofArguments (arguments : Fields Value) : Except Fault CompiledCondition := do
  return .ofConditions (← Condition.ofArguments arguments)

/-- What arguments come to when they are compiled into a condition. -/
structure Compiles (arguments : Fields Value) (outcome : Except Fault CompiledCondition) :
    Prop where
  /-- They are compiled exactly if all of them are well-formed. -/
  accepted_iff : (∃ compiled, outcome = .ok compiled) ↔
    ∀ argument ∈ arguments, WellFormed argument
  /-- The tree joins one leaf for each argument, in their order, which keeps all of it. -/
  kept : ∀ compiled, outcome = .ok compiled →
    ∃ leaves, List.Forall₂ Keeps arguments leaves ∧ Joins compiled.condition leaves
  /-- Otherwise the fault is that of the first argument that is not well-formed. -/
  refused_iff : ∀ fault, outcome = .error fault ↔
    ∃ before offending after, arguments = before ++ offending :: after ∧
      (∀ argument ∈ before, WellFormed argument) ∧ Offends offending fault

/-- What is compiled is the condition that the arguments come to. -/
theorem CompiledCondition.ofArguments_eq_ok_iff {arguments : Fields Value}
    {compiled : CompiledCondition} :
    ofArguments arguments = .ok compiled ↔
      ∃ conditions, Condition.ofArguments arguments = .ok conditions ∧
        compiled = ofConditions conditions := by
  rw [ofArguments, bind_eq_ok_iff]
  constructor
  · rintro ⟨conditions, hconditions, hpure⟩
    cases hpure
    exact ⟨conditions, hconditions, rfl⟩
  · rintro ⟨conditions, hconditions, rfl⟩
    exact ⟨conditions, hconditions, rfl⟩

/-- Arguments that come to no condition do not compile, for the same reason. -/
theorem CompiledCondition.ofArguments_eq_error_iff {arguments : Fields Value} {fault : Fault} :
    ofArguments arguments = .error fault ↔ Condition.ofArguments arguments = .error fault := by
  rw [ofArguments, bind_eq_error_iff]
  constructor
  · rintro (hfault | ⟨conditions, _, hpure⟩)
    · exact hfault
    · cases hpure
  · exact .inl

/-- **How conditions compile**: what is accepted, what comes of it, and what is at fault. -/
theorem CompiledCondition.compiles (arguments : Fields Value) :
    Compiles arguments (ofArguments arguments) where
  accepted_iff := by
    calc (∃ compiled, ofArguments arguments = .ok compiled)
        ↔ ∃ conditions, Condition.ofArguments arguments = .ok conditions := by
          simp [ofArguments_eq_ok_iff]
      _ ↔ ∀ argument ∈ arguments,
            ∃ condition, Condition.ofArgument argument.1 argument.2 = .ok condition :=
          exists_mapM_eq_ok_iff
      _ ↔ ∀ argument ∈ arguments, WellFormed argument :=
          forall₂_congr fun _ _ => Condition.exists_ofArgument_eq_ok_iff
  kept compiled h := by
    obtain ⟨conditions, hconditions, rfl⟩ := ofArguments_eq_ok_iff.mp h
    obtain ⟨leaves, hkeeps, rfl⟩ := Condition.exists_leaves_of_ofArguments hconditions
    exact ⟨leaves, hkeeps, joins_allOf leaves⟩
  refused_iff fault := by
    rw [ofArguments_eq_error_iff, Condition.ofArguments, mapM_eq_error_iff]
    simp only [Condition.exists_ofArgument_eq_ok_iff, Condition.ofArgument_eq_error_iff]

/-- The value of the first argument counts before the keyword of the second. -/
example : CompiledCondition.ofArguments [("age__exists", .bool false), ("", .null true)] =
    .error (.malformedCondition "age__exists" Operator.present.requirement) := by
  rfl

/-- **The condition compiler accepts the well-formed arguments and loses nothing.**  Plain
arguments are compiled like this once all their values have their form in a table. -/
theorem compilesConditions :
    (∀ arguments : Fields Value, Compiles arguments (CompiledCondition.ofArguments arguments)) ∧
      ∀ arguments : Arguments,
        arguments.compileCondition = arguments.values >>= CompiledCondition.ofArguments := by
  refine ⟨CompiledCondition.compiles, fun arguments => ?_⟩
  rw [Arguments.compileCondition, Arguments.conditions]
  cases arguments.values <;> rfl

end KeywordTable
