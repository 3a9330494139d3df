import KeywordTable.Table

/-!
# What is refused without a store

Arguments, names and items are refused for reasons of their own.  `Fault.isLocal` holds of
these reasons and `Fault.isReported` of those that only a store has; none is both.

`FailsOnly` says which faults a result can be.  It is closed under the way results are
computed, so it is proved once for each function that reads arguments, and from these for
the requests of a table: those without an item are refused for local reasons only, and
those with one also by the validator of the table.
-/

namespace KeywordTable

variable {α β : Type}

namespace Fault

/-- Found in what the caller gave, by reading it. -/
def isLocal : Fault → Bool
  | .malformedCondition _ _ | .malformedUpdate _ _ | .invalidPath _ | .duplicateTarget _
  | .invalidKey _ | .unknownIndex _ | .unserializable _ => true
  | _ => false

/-- Found by a validator. -/
def isInvalid : Fault → Bool
  | .invalid _ => true
  | _ => false

/-- Reported by a store. -/
def isReported : Fault → Bool
  | .conditionFailed _ | .throttled _ | .unreachable _ => true
  | _ => false

/-- What a store reports is found neither locally nor by a validator. -/
theorem isLocal_of_isReported {fault : Fault} (h : fault.isReported = true) :
    fault.isLocal = false ∧ fault.isInvalid = false := by
  cases fault with
  | conditionFailed | throttled | unreachable => exact ⟨rfl, rfl⟩
  | _ => cases h

end Fault

/-- Every fault that the result can be has this property. -/
def FailsOnly (P : Fault → Prop) (result : Except Fault α) : Prop :=
  ∀ fault, result = .error fault → P fault

/-! ### How results are computed -/

section Laws

variable {P Q : Fault → Prop}

theorem failsOnly_ok (x : α) : FailsOnly P (.ok x) := nofun

theorem failsOnly_error {fault : Fault} (h : P fault) :
    FailsOnly P (.error fault : Except Fault α) := by
  intro other hother
  cases hother
  exact h

/-- A part that goes on after another fails only as one of the two does. -/
theorem FailsOnly.bind {first : Except Fault α} {next : α → Except Fault β}
    (hfirst : FailsOnly P first) (hnext : ∀ x, FailsOnly P (next x)) :
    FailsOnly P (first >>= next) := by
  cases first with
  | ok x => exact hnext x
  | error fault => exact failsOnly_error (hfirst fault rfl)

/-- What is made of a result does not change how it fails. -/
theorem FailsOnly.map {result : Except Fault α} (h : FailsOnly P result) (f : α → β) :
    FailsOnly P (result.map f) := by
  cases result with
  | ok x => exact failsOnly_ok (f x)
  | error fault => exact failsOnly_error (h fault rfl)

/-- A weaker property holds of the faults as well. -/
theorem FailsOnly.mono {result : Except Fault α} (h : FailsOnly P result)
    (hPQ : ∀ fault, P fault → Q fault) : FailsOnly Q result :=
  fun fault heq => hPQ fault (h fault heq)

/-- A list fails only as one of its members does. -/
theorem failsOnly_mapM {f : α → Except Fault β} (h : ∀ x, FailsOnly P (f x)) (xs : List α) :
    FailsOnly P (xs.mapM f) := by
  induction xs with
  | nil => exact failsOnly_ok []
  | cons x xs ih =>
      rw [List.mapM_cons]
      exact (h x).bind fun y => ih.bind fun ys => failsOnly_ok (y :: ys)

end Laws

/-- The result is refused, if at all, for a local reason. -/
abbrev Refusable (result : Except Fault α) : Prop :=
  FailsOnly (fun fault => fault.isLocal = true) result

/-! ### Values -/

namespace Plain

/-- A value that is no list of the right elements is refused as a set. -/
theorem refusable_setOf (kind : SetKind) (value : Value) : Refusable (setOf kind value) := by
  have horElse (γ : Type) (result : Option γ) (reason : String) :
      Refusable (orUnserializable result reason) := by
    cases result with
    | none => exact failsOnly_error rfl
    | some x => exact failsOnly_ok x
  cases value with
  | list elements =>
      cases kind with
      | text | number | bytes => exact (horElse _ _ _).bind fun members => failsOnly_ok _
  | _ => exact failsOnly_error rfl

mutual

/-- A plain value that has no form in a table is refused. -/
theorem refusable_toValue : (plain : Plain) → Refusable plain.toValue
  | .null | .bool _ | .integer _ | .real _ | .text _ | .bytes _ => by
      rw [toValue]
      exact failsOnly_ok _
  | .list elements => by
      rw [toValue]
      exact (refusable_elementsToValues elements).bind fun values => failsOnly_ok _
  | .fields members => by
      rw [toValue]
      exact (refusable_fieldsToValues members).bind fun values => failsOnly_ok _
  | .set kind elements => by
      rw [toValue]
      exact (refusable_toValue elements).bind fun value => refusable_setOf kind value
  | .failing reason => by
      rw [toValue]
      exact failsOnly_error rfl

theorem refusable_elementsToValues : (elements : List Plain) → Refusable (elementsToValues elements)
  | [] => by
      rw [elementsToValues]
      exact failsOnly_ok []
  | plain :: rest => by
      rw [elementsToValues]
      exact (refusable_toValue plain).bind fun value =>
        (refusable_elementsToValues rest).bind fun values => failsOnly_ok _

/-- Arguments are refused if a value has no form in a table. -/
theorem refusable_fieldsToValues :
    (members : List (String × Plain)) → Refusable (fieldsToValues members)
  | [] => by
      rw [fieldsToValues]
      exact failsOnly_ok []
  | (name, plain) :: rest => by
      rw [fieldsToValues]
      exact (refusable_toValue plain).bind fun value =>
        (refusable_fieldsToValues rest).bind fun values => failsOnly_ok _

end

/-- So is a plain value that is no item. -/
theorem refusable_toItem (plain : Plain) : Refusable plain.toItem := by
  unfold toItem
  refine (refusable_toValue plain).bind fun value => ?_
  cases value with
  | map item => exact failsOnly_ok item
  | _ => exact failsOnly_error rfl

end Plain

/-! ### Names and keywords -/

/-- Names that make no path are refused. -/
theorem AttributePath.refusable_ofNames (names : List String) : Refusable (ofNames names) := by
  unfold ofNames
  split
  · exact failsOnly_ok _
  · exact failsOnly_error rfl

/-- So is a selection with such a name. -/
theorem Selection.refusable_parse (names : List String) : Refusable (parse names) :=
  (failsOnly_mapM (fun _ => AttributePath.refusable_ofNames _) names).bind fun _ =>
    failsOnly_ok _

/-- So is a keyword that does not resolve. -/
theorem refusable_resolve (κ : Type) [Operation κ] (keyword : String) :
    Refusable (resolve κ keyword) := by
  intro fault h
  rw [eq_invalidPath_of_resolve h]
  rfl

namespace Condition

/-- A condition is refused for its keyword or for its operand. -/
theorem refusable_ofArgument (keyword : String) (value : Value) :
    Refusable (ofArgument keyword value) := by
  unfold ofArgument
  refine (refusable_resolve Operator keyword).bind fun resolved => ?_
  obtain ⟨path, operator⟩ := resolved
  dsimp only
  split
  · exact failsOnly_ok _
  · exact failsOnly_error rfl

/-- Conditions are refused for one of them. -/
theorem refusable_ofArguments (arguments : Fields Value) : Refusable (ofArguments arguments) := by
  refine failsOnly_mapM (fun argument => ?_) arguments
  exact refusable_ofArgument argument.1 argument.2

end Condition

namespace Change

/-- A change is refused for its keyword or for its value. -/
theorem refusable_ofArgument (keyword : String) (value : Value) :
    Refusable (ofArgument keyword value) := by
  unfold ofArgument
  refine (refusable_resolve UpdateFunction keyword).bind fun resolved => ?_
  obtain ⟨target, function⟩ := resolved
  dsimp only
  split
  · split
    · exact failsOnly_ok _
    · exact failsOnly_error rfl
  · split
    · exact failsOnly_ok _
    · exact failsOnly_error rfl

/-- Changes are refused for one of them or for a path that is changed twice. -/
theorem refusable_ofArgumentsAfter (targets : List AttributePath) (arguments : Fields Value) :
    Refusable (ofArgumentsAfter targets arguments) := by
  induction arguments generalizing targets with
  | nil => exact failsOnly_ok []
  | cons argument rest ih =>
      obtain ⟨keyword, value⟩ := argument
      rw [ofArgumentsAfter]
      refine (refusable_ofArgument keyword value).bind fun change => ?_
      split
      · exact failsOnly_error rfl
      · exact (ih (change.target :: targets)).bind fun _ => failsOnly_ok _

/-- An update is refused without changes, or for one of them. -/
theorem refusable_ofArguments (arguments : Fields Value) : Refusable (ofArguments arguments) := by
  unfold ofArguments
  split
  · exact failsOnly_error rfl
  · exact refusable_ofArgumentsAfter [] arguments

end Change

/-! ### Keys and arguments -/

namespace KeySchema

variable (schema : KeySchema)

/-- A key is refused if an attribute of it is missing. -/
theorem refusable_complete (key : Item) : Refusable (schema.complete key) := by
  unfold complete
  split
  · exact failsOnly_error rfl
  · split
    · exact failsOnly_ok key
    · split
      · exact failsOnly_ok key
      · exact failsOnly_error rfl

/-- A key is refused if a field is none of its attributes, or if one is missing. -/
theorem refusable_keyFrom (fields : Fields Value) : Refusable (schema.keyFrom fields) := by
  unfold keyFrom
  split
  · exact failsOnly_error rfl
  · exact schema.refusable_complete _

/-- Arguments are refused if a key attribute is missing among them. -/
theorem refusable_split (fields : Fields Value) : Refusable (schema.split fields) :=
  (schema.refusable_complete _).bind fun _ => failsOnly_ok _

end KeySchema

/-- Arguments are refused for a value that has no form in a table. -/
theorem Arguments.refusable_values (arguments : Arguments) : Refusable arguments.values :=
  Plain.refusable_fieldsToValues arguments

/-- Arguments are refused for their values before they are refused as conditions. -/
theorem Arguments.refusable_conditions (arguments : Arguments) : Refusable arguments.conditions :=
  arguments.refusable_values.bind Condition.refusable_ofArguments

/-! ### The requests of a table -/

/-- A validator finds fault with an item in no other way than by its violations. -/
theorem Validator.failsOnly_check (validator : Validator) (item : Item) (incomplete : Bool) :
    FailsOnly (fun fault => fault.isInvalid = true) (validator.check item incomplete) := by
  unfold check
  cases validator item incomplete with
  | ok checked => exact failsOnly_ok checked
  | error violations => exact failsOnly_error rfl

/-- The result is refused, if at all, for a local reason or by a validator. -/
abbrev Checked (result : Except Fault α) : Prop :=
  FailsOnly (fun fault => (fault.isLocal || fault.isInvalid) = true) result

/-- What is refused locally is found before anything is sent. -/
theorem Refusable.checked {result : Except Fault α} (h : Refusable result) : Checked result :=
  h.mono fun _ hlocal => by rw [hlocal, Bool.true_or]

namespace Table

variable (table : Table)

/-- The key of a call is refused for its values or its attributes. -/
theorem refusable_key (arguments : Arguments) : Refusable (table.key arguments) :=
  arguments.refusable_values.bind table.schema.refusable_keyFrom

/-- An item that is to be written is refused as a plain value or by the validator. -/
theorem checked_itemToWrite (plain : Plain) : Checked (table.itemToWrite plain) :=
  plain.refusable_toItem.checked.bind fun item =>
    (table.validator.failsOnly_check item false).mono fun _ hinvalid => by
      rw [hinvalid, Bool.or_true]

/-- An item that was found can only fail the validator. -/
theorem failsOnly_itemFound (incomplete : Bool) (raw : Option Item) :
    FailsOnly (fun fault => fault.isInvalid = true) (table.itemFound incomplete raw) := by
  cases raw with
  | none => exact failsOnly_ok none
  | some item =>
      exact (table.validator.failsOnly_check item incomplete).bind fun checked =>
        failsOnly_ok (some checked)

/-- A read of one item is refused for its key. -/
theorem refusable_getRequest (key : Arguments) (consistent : Bool) :
    Refusable (table.getRequest key consistent) :=
  (table.refusable_key key).bind fun _ => failsOnly_ok _

/-- A put is refused for its item alone. -/
theorem checked_putRequest (plain : Plain) : Checked (table.putRequest plain) :=
  (table.checked_itemToWrite plain).bind fun _ => failsOnly_ok _

/-- A put of a new item is refused for its item, or for a hash key that is no path. -/
theorem checked_putUniqueRequest (plain : Plain) : Checked (table.putUniqueRequest plain) :=
  (AttributePath.refusable_ofNames _).checked.bind fun _ =>
    (table.checked_itemToWrite plain).bind fun _ => failsOnly_ok _

/-- An update is refused for its key, its changes or its conditions. -/
theorem refusable_updateRequest (arguments conditions : Arguments) :
    Refusable (table.updateRequest arguments conditions) :=
  arguments.refusable_values.bind fun values =>
    (table.schema.refusable_split values).bind fun (_, rest) =>
      (Change.refusable_ofArguments rest).bind fun _ =>
        conditions.refusable_conditions.bind fun _ => failsOnly_ok _

/-- A delete is refused for its key or its conditions. -/
theorem refusable_deleteRequest (key conditions : Arguments) :
    Refusable (table.deleteRequest key conditions) :=
  (table.refusable_key key).bind fun _ =>
    conditions.refusable_conditions.bind fun _ => failsOnly_ok _

/-- One key that is refused is enough, wherever it stands. -/
theorem refusable_getBatchRequest (keys : List Arguments) (consistent : Bool)
    (attributes : List String) : Refusable (table.getBatchRequest keys consistent attributes) :=
  (failsOnly_mapM table.refusable_key keys).bind fun _ =>
    (Selection.refusable_parse attributes).bind fun _ => failsOnly_ok _

/-- A batch of puts is refused for one of its items. -/
theorem checked_putBatchRequest (items : List Plain) : Checked (table.putBatchRequest items) :=
  (failsOnly_mapM (fun plain => (table.checked_itemToWrite plain).bind fun _ => failsOnly_ok _)
    items).bind fun _ => failsOnly_ok _

/-- A batch of deletes is refused for one of its keys. -/
theorem refusable_deleteBatchRequest (keys : List Arguments) :
    Refusable (table.deleteBatchRequest keys) :=
  (failsOnly_mapM (fun key => (table.refusable_key key).bind fun _ => failsOnly_ok _) keys).bind
    fun _ => failsOnly_ok _

end Table

end KeywordTable
