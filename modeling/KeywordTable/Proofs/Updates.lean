import KeywordTable.Proofs.Keywords
import Mathlib.Data.List.Forall2

/-!
# What the update compiler accepts

`Change.Made` lists what each function makes of the values it accepts, and `Change.Offends`
how an argument is refused.  An argument stands for one change or for one fault, and never
for both, so `ofArgument_eq_ok_iff` and `ofArgument_eq_error_iff` say all that happens to a
single argument.

What happens to a list is decided from the left, with the targets so far at hand
(`ofArgumentsAfter_eq_ok_iff`, `ofArgumentsAfter_eq_error_iff`).  The main result,
`Change.compilesUpdates`, speaks of the list as a whole: it is compiled exactly if it is not
empty, all arguments are well-formed and no two of them aim at one target, by whatever
functions.  Otherwise the first argument that offends or repeats a target is the fault.
-/

namespace KeywordTable

/-- The function can work with the value. -/
def UpdateFunction.Accepts : UpdateFunction → Value → Prop
  | .set, _ => True
  | .ifNotExists, value => value.isNull = false
  | .append, value => value.isList = true
  | .plus, value | .minus, value => value.isNumber = true
  | .add, value => value.isNumber = true ∨ value.isSet = true
  | .delete, value => value.isSet = true

namespace Change

/-! ### Single arguments -/

/-- The change that a function makes of a value at a path. -/
inductive Made (target : AttributePath) : UpdateFunction → Value → Change → Prop
  | removed (flag : Bool) : Made target .set (.null flag) (.remove target)
  | set (value : Value) (h : value.isNull = false) :
      Made target .set value (.set target (.literal value))
  | ifNotExists (value : Value) (h : value.isNull = false) :
      Made target .ifNotExists value (.set target (.ifNotExists target value))
  | appended (elements : List Value) :
      Made target .append (.list elements) (.set target (.appended target (.list elements)))
  | plus (digits : String) : Made target .plus (.number digits) (.add target (.number digits))
  | minus (digits : String) :
      Made target .minus (.number digits) (.add target (.number (negated digits)))
  | add (value : Value) (h : value.isNumber = true ∨ value.isSet = true) :
      Made target .add value (.add target value)
  | delete (value : Value) (h : value.isSet = true) :
      Made target .delete value (.delete target value)

/-- The argument asks for the change: its function makes that of its value, at its path. -/
def AsksFor (argument : String × Value) (change : Change) : Prop :=
  ∃ target function, resolve UpdateFunction argument.1 = .ok (target, function) ∧
    Made target function argument.2 change

/-- The keyword resolves, to a function that accepts the value. -/
def WellFormed (argument : String × Value) : Prop :=
  ∃ target function, resolve UpdateFunction argument.1 = .ok (target, function) ∧
    function.Accepts argument.2

/-- The argument is refused with this fault, which shows its keyword. -/
inductive Offends : String × Value → Fault → Prop
  | ofKeyword (keyword : String) (value : Value)
      (h : ∀ found, resolve UpdateFunction keyword ≠ .ok found) :
      Offends (keyword, value) (.invalidPath keyword)
  | ofNull (keyword : String) (flag : Bool) (target : AttributePath) (function : UpdateFunction)
      (hresolve : resolve UpdateFunction keyword = .ok (target, function))
      (hfunction : function ≠ .set) :
      Offends (keyword, .null flag)
        (.malformedUpdate keyword "only a plain set can remove an attribute")
  | ofValue (keyword : String) (value : Value) (target : AttributePath)
      (function : UpdateFunction)
      (hresolve : resolve UpdateFunction keyword = .ok (target, function))
      (hnull : value.isNull = false) (hvalue : ¬ function.Accepts value) :
      Offends (keyword, value) (.malformedUpdate keyword (requirement function))

variable {target : AttributePath} {function : UpdateFunction} {value : Value} {change : Change}
  {argument : String × Value} {fault : Fault}

/-- A function makes something of the values that it accepts and of no others. -/
theorem exists_made_iff : (∃ change, Made target function value change) ↔
    function.Accepts value := by
  constructor
  · rintro ⟨change, hmade⟩
    cases hmade with
    | removed flag => trivial
    | set value h => trivial
    | ifNotExists value h => exact h
    | appended elements => rfl
    | plus digits => rfl
    | minus digits => rfl
    | add value h => exact h
    | delete value h => exact h
  · intro haccepts
    cases function with
    | set =>
        by_cases hnull : value.isNull = true
        · cases value with
          | null flag => exact ⟨_, .removed flag⟩
          | _ => cases hnull
        · exact ⟨_, .set value (by simpa using hnull)⟩
    | ifNotExists => exact ⟨_, .ifNotExists value haccepts⟩
    | append =>
        cases value with
        | list elements => exact ⟨_, .appended elements⟩
        | _ => cases haccepts
    | plus =>
        cases value with
        | number digits => exact ⟨_, .plus digits⟩
        | _ => cases haccepts
    | minus =>
        cases value with
        | number digits => exact ⟨_, .minus digits⟩
        | _ => cases haccepts
    | add => exact ⟨_, .add value haccepts⟩
    | delete => exact ⟨_, .delete value haccepts⟩

/-- An argument is well formed if it asks for a change. -/
theorem wellFormed_iff : WellFormed argument ↔ ∃ change, AsksFor argument change := by
  constructor
  · rintro ⟨target, function, hresolve, haccepts⟩
    obtain ⟨change, hmade⟩ := exists_made_iff.mpr haccepts
    exact ⟨change, target, function, hresolve, hmade⟩
  · rintro ⟨change, target, function, hresolve, hmade⟩
    exact ⟨target, function, hresolve, exists_made_iff.mp ⟨change, hmade⟩⟩

/-- A function accepts just the values that a change can be made of. -/
theorem ofValue?_eq_some_iff (hnull : value.isNull = false) :
    ofValue? target function value = some change ↔ Made target function value change := by
  constructor
  · intro h
    unfold ofValue? at h
    split at h
    case h_1 =>
      cases h
      exact .set value hnull
    case h_2 =>
      cases h
      exact .ifNotExists value hnull
    case h_3 =>
      cases value with
      | list elements =>
          cases h
          exact .appended elements
      | _ => cases h
    case h_4 digits =>
      cases h
      exact .plus digits
    case h_5 digits =>
      cases h
      exact .minus digits
    case h_6 =>
      split at h
      · next hvalue =>
          cases h
          exact .add value (by simpa using hvalue)
      · cases h
    case h_7 =>
      split at h
      · next hset =>
          cases h
          exact .delete value hset
      · cases h
    case h_8 => cases h
  · intro hmade
    cases hmade with
    | removed flag => cases hnull
    | set value h => rfl
    | ifNotExists value h => rfl
    | appended elements => rfl
    | plus digits => rfl
    | minus digits => rfl
    | add value h => exact if_pos (by simpa using h)
    | delete value h => exact if_pos h

/-- A value is null whatever flag it carries. -/
theorem isNull_iff : value.isNull = true ↔ ∃ flag, value = .null flag := by
  cases value <;> simp [Value.isNull]

/-- A null is accepted by one function only, which removes the attribute. -/
theorem Made.of_null {flag : Bool} (h : Made target function (.null flag) change) :
    function = .set ∧ change = .remove target := by
  cases h with
  | removed flag => exact ⟨rfl, rfl⟩
  | set _ h | ifNotExists _ h => cases h
  | add _ h => rcases h with h | h <;> cases h
  | delete _ h => cases h

/-- **An argument is compiled** to the change it asks for. -/
theorem ofArgument_eq_ok_iff :
    ofArgument argument.1 argument.2 = .ok change ↔ AsksFor argument change := by
  obtain ⟨keyword, value⟩ := argument
  rw [AsksFor, ofArgument, bind_eq_ok_iff, Prod.exists]
  refine exists_congr fun target => exists_congr fun function => and_congr_right fun _ => ?_
  cases hnull : value.isNull with
  | true =>
      obtain ⟨flag, rfl⟩ := isNull_iff.mp hnull
      simp only [if_true]
      constructor
      · intro h
        split at h
        · next hset =>
            cases h
            exact hset ▸ .removed flag
        · cases h
      · intro hmade
        obtain ⟨rfl, rfl⟩ := hmade.of_null
        rfl
  | false =>
      rw [← ofValue?_eq_some_iff hnull]
      simp only [Bool.false_eq_true, if_false]
      cases ofValue? target function value with
      | none => exact ⟨nofun, nofun⟩
      | some made => simp [pure, Except.pure]

/-- An argument that offends is refused with that fault. -/
theorem ofArgument_of_offends (h : Offends argument fault) :
    ofArgument argument.1 argument.2 = .error fault := by
  cases h with
  | ofKeyword keyword value hnothing =>
      cases hresolve : resolve UpdateFunction keyword with
      | ok found => exact absurd hresolve (hnothing found)
      | error fault =>
          rw [ofArgument, hresolve, eq_invalidPath_of_resolve hresolve]
          rfl
  | ofNull keyword flag target function hresolve hfunction =>
      simp only [ofArgument, hresolve, bind, Except.bind, Value.isNull, if_true, if_neg hfunction]
      rfl
  | ofValue keyword value target function hresolve hnull hvalue =>
      have hnone : ofValue? target function value = none := by
        rw [Option.eq_none_iff_forall_ne_some]
        intro change hchange
        exact hvalue (exists_made_iff.mp ⟨change, (ofValue?_eq_some_iff hnull).mp hchange⟩)
      simp only [ofArgument, hresolve, bind, Except.bind, hnull, Bool.false_eq_true, if_false,
        hnone]
      rfl

/-- An argument that is not well-formed offends by its keyword, by being null or by its
value. -/
theorem wellFormed_or_offends (argument : String × Value) :
    WellFormed argument ∨ ∃ fault, Offends argument fault := by
  obtain ⟨keyword, value⟩ := argument
  by_cases hfound : ∃ found, resolve UpdateFunction keyword = .ok found
  · obtain ⟨⟨target, function⟩, hresolve⟩ := hfound
    by_cases haccepts : function.Accepts value
    · exact .inl ⟨target, function, hresolve, haccepts⟩
    · refine .inr ?_
      cases hnull : value.isNull with
      | true =>
          obtain ⟨flag, rfl⟩ := isNull_iff.mp hnull
          refine ⟨_, .ofNull keyword flag target function hresolve ?_⟩
          rintro rfl
          exact haccepts trivial
      | false => exact ⟨_, .ofValue keyword value target function hresolve hnull haccepts⟩
  · exact .inr ⟨_, .ofKeyword keyword value (not_exists.mp hfound)⟩

/-- **An argument is refused** with the fault by which it offends. -/
theorem ofArgument_eq_error_iff :
    ofArgument argument.1 argument.2 = .error fault ↔ Offends argument fault := by
  constructor
  · intro h
    rcases wellFormed_or_offends argument with hwell | ⟨other, hoffends⟩
    · obtain ⟨change, hasks⟩ := wellFormed_iff.mp hwell
      rw [ofArgument_eq_ok_iff.mpr hasks] at h
      cases h
    · have heq : fault = other :=
        Except.error.inj (h.symm.trans (ofArgument_of_offends hoffends))
      rw [heq]
      exact hoffends
  · exact ofArgument_of_offends

/-! ### What a change is good for -/

/-- What the change carries suits it, and a change that reads an attribute reads the one that
it writes. -/
def Sound : Change → Prop
  | .set _ (.literal value) => value.isNull = false
  | .set target (.ifNotExists source value) => source = target ∧ value.isNull = false
  | .set target (.appended source value) => source = target ∧ value.isList = true
  | .set _ (.sum _ _) | .set _ (.difference _ _) => False
  | .remove _ => True
  | .add _ value => value.isNumber = true ∨ value.isSet = true
  | .delete _ value => value.isSet = true

/-- The value that the change carries, if it carries one. -/
def value? : Change → Option Value
  | .set _ (.literal value) | .set _ (.ifNotExists _ value) | .set _ (.sum _ value)
  | .set _ (.difference _ value) | .set _ (.appended _ value) | .add _ value
  | .delete _ value => some value
  | .remove _ => none

/-- The change that is made goes to the path of its keyword. -/
theorem Made.target_eq (h : Made target function value change) : change.target = target := by
  cases h <;> rfl

/-- The change that is made is one that a store can carry out. -/
theorem Made.sound (h : Made target function value change) : change.Sound := by
  cases h with
  | removed flag => trivial
  | set value h => exact h
  | ifNotExists value h => exact ⟨rfl, h⟩
  | appended elements => exact ⟨rfl, rfl⟩
  | plus digits => exact .inl rfl
  | minus digits => exact .inl rfl
  | add value h => exact h
  | delete value h => exact h

/-- A sound change carries no null. -/
theorem Sound.isNull_eq_false (h : change.Sound) {carried : Value}
    (hcarried : carried ∈ change.value?) : carried.isNull = false := by
  have hother (hkind : carried.isList = true ∨ carried.isNumber = true ∨ carried.isSet = true) :
      carried.isNull = false := by
    cases carried <;> simp_all [Value.isNull, Value.isList, Value.isNumber, Value.isSet]
  cases change with
  | set target assigned =>
      cases assigned with
      | literal => cases hcarried; exact h
      | ifNotExists => cases hcarried; exact h.2
      | appended => cases hcarried; exact hother (.inl h.2)
      | sum | difference => exact h.elim
  | remove target => cases hcarried
  | add target => cases hcarried; exact hother (.inr h)
  | delete target => cases hcarried; exact hother (.inr (.inr h))

/-- Counting up and down both add a number. -/
theorem Made.add_of_counts (h : Made target function value change)
    (hcounts : function = .plus ∨ function = .minus) :
    ∃ digits, change = .add target (.number digits) := by
  cases h with
  | plus digits => exact ⟨digits, rfl⟩
  | minus digits => exact ⟨negated digits, rfl⟩
  | _ => rcases hcounts with hplus | hminus <;> contradiction

/-- Only a null removes the attribute. -/
theorem Made.remove_iff (h : Made target function value change) :
    change = .remove target ↔ value.isNull = true := by
  constructor
  · rintro rfl
    cases h with
    | removed flag => rfl
  · intro hnull
    obtain ⟨flag, rfl⟩ := isNull_iff.mp hnull
    exact h.of_null.2

/-- The change does what the argument asks for. -/
structure Follows (argument : String × Value) (change : Change) : Prop where
  /-- It is what the function makes of the value, at the path that the keyword resolves to. -/
  made : ∃ function, resolve UpdateFunction argument.1 = .ok (change.target, function) ∧
    Made change.target function argument.2 change
  /-- Counting never sets: it adds a number. -/
  counts : ∀ target function, resolve UpdateFunction argument.1 = .ok (target, function) →
    (function = .plus ∨ function = .minus) → ∃ digits, change = .add target (.number digits)
  /-- A null removes, under a plain set only, and nothing else removes. -/
  removes_iff : change = .remove change.target ↔ argument.2.isNull = true
  removes_set : argument.2.isNull = true →
    resolve UpdateFunction argument.1 = .ok (change.target, .set)
  sound : change.Sound
  carried : ∀ value ∈ change.value?, value.isNull = false

/-- A change that an argument asks for follows from its keyword and its value. -/
theorem AsksFor.follows (h : AsksFor argument change) : Follows argument change := by
  obtain ⟨target, function, hresolve, hmade⟩ := h
  obtain rfl := hmade.target_eq
  refine ⟨⟨function, hresolve, hmade⟩, ?_, hmade.remove_iff, ?_, hmade.sound,
    fun _ => hmade.sound.isNull_eq_false⟩
  · intro target other hother hcounts
    rw [hresolve] at hother
    cases hother
    exact hmade.add_of_counts hcounts
  · intro hnull
    obtain ⟨flag, hflag⟩ := isNull_iff.mp hnull
    rw [hflag] at hmade
    rw [hresolve, hmade.of_null.1]

/-! ### Lists of arguments -/

/-- The two arguments aim at one target, by whatever functions. -/
def SameTarget (first second : String × Value) : Prop :=
  ∃ target function other, resolve UpdateFunction first.1 = .ok (target, function) ∧
    resolve UpdateFunction second.1 = .ok (target, other)

/-- Two arguments go to the same path if their changes do. -/
theorem AsksFor.sameTarget_iff {first second : String × Value} {change other : Change}
    (h : AsksFor first change) (hother : AsksFor second other) :
    SameTarget first second ↔ change.target = other.target := by
  obtain ⟨target, function, hresolve, hmade⟩ := h
  obtain ⟨target', function', hresolve', hmade'⟩ := hother
  rw [hmade.target_eq, hmade'.target_eq]
  constructor
  · rintro ⟨_, _, _, hfirst, hsecond⟩
    rw [hresolve] at hfirst
    rw [hresolve'] at hsecond
    cases hfirst
    cases hsecond
    rfl
  · rintro rfl
    exact ⟨target, function, function', hresolve, hresolve'⟩

variable {targets : List AttributePath} {arguments : Fields Value} {changes : List Change}

/-- The first argument makes a change of a path that is still free, and the others theirs with
one path less. -/
theorem ofArgumentsAfter_cons_eq_ok :
    ofArgumentsAfter targets (argument :: arguments) = .ok changes ↔
      ∃ change others, AsksFor argument change ∧ change.target ∉ targets ∧
        ofArgumentsAfter (change.target :: targets) arguments = .ok others ∧
        changes = change :: others := by
  rw [ofArgumentsAfter, bind_eq_ok_iff]
  constructor
  · rintro ⟨change, hchange, hrest⟩
    split at hrest
    · cases hrest
    · next hnew =>
        obtain ⟨others, hothers, hpure⟩ := bind_eq_ok_iff.mp hrest
        cases hpure
        exact ⟨change, others, ofArgument_eq_ok_iff.mp hchange, hnew, hothers, rfl⟩
  · rintro ⟨change, others, hasks, hnew, hothers, rfl⟩
    refine ⟨change, ofArgument_eq_ok_iff.mpr hasks, ?_⟩
    rw [if_neg hnew]
    exact bind_eq_ok_iff.mpr ⟨others, hothers, rfl⟩

/-- What follows the first argument depends on its target. -/
theorem ofArgumentsAfter_cons_eq_error :
    ofArgumentsAfter targets (argument :: arguments) = .error fault ↔
      Offends argument fault ∨ ∃ change, AsksFor argument change ∧
        (change.target ∈ targets ∧ fault = .duplicateTarget change.target.display ∨
          change.target ∉ targets ∧
            ofArgumentsAfter (change.target :: targets) arguments = .error fault) := by
  rw [ofArgumentsAfter, bind_eq_error_iff, ofArgument_eq_error_iff]
  simp only [ofArgument_eq_ok_iff]
  refine or_congr_right (exists_congr fun change => and_congr_right fun _ => ?_)
  by_cases hmem : change.target ∈ targets
  · rw [if_pos hmem]
    constructor
    · intro h
      cases h
      exact .inl ⟨hmem, rfl⟩
    · rintro (⟨_, rfl⟩ | ⟨hnew, _⟩)
      · rfl
      · exact absurd hmem hnew
  · rw [if_neg hmem, bind_eq_error_iff]
    constructor
    · rintro (h | ⟨_, _, hpure⟩)
      · exact .inr ⟨hmem, h⟩
      · cases hpure
    · rintro (⟨hold, _⟩ | ⟨_, h⟩)
      · exact absurd hold hmem
      · exact .inl h

/-- **Arguments are compiled** to the changes that they ask for if no target is repeated. -/
theorem ofArgumentsAfter_eq_ok_iff :
    ofArgumentsAfter targets arguments = .ok changes ↔
      List.Forall₂ AsksFor arguments changes ∧ (changes.map Change.target).Nodup ∧
        ∀ change ∈ changes, change.target ∉ targets := by
  induction arguments generalizing targets changes with
  | nil =>
      constructor
      · intro h
        cases h
        exact ⟨.nil, List.nodup_nil, nofun⟩
      · rintro ⟨hasks, _⟩
        cases hasks
        rfl
  | cons argument arguments ih =>
      rw [ofArgumentsAfter_cons_eq_ok]
      constructor
      · rintro ⟨change, others, hasks, hnew, hothers, rfl⟩
        obtain ⟨hall, hnodup, hnews⟩ := ih.mp hothers
        refine ⟨.cons hasks hall, List.nodup_cons.mpr ⟨?_, hnodup⟩, ?_⟩
        · intro hmem
          obtain ⟨other, hother, heq⟩ := List.mem_map.mp hmem
          exact hnews other hother (heq ▸ List.mem_cons_self)
        · refine List.forall_mem_cons.mpr ⟨hnew, fun other hother hmem => ?_⟩
          exact hnews other hother (List.mem_cons_of_mem _ hmem)
      · rintro ⟨hasks, hnodup, hnews⟩
        obtain _ | ⟨hfirst, hall⟩ := hasks
        obtain ⟨hdistinct, hnodup⟩ := List.nodup_cons.mp hnodup
        obtain ⟨hnew, hnews⟩ := List.forall_mem_cons.mp hnews
        refine ⟨_, _, hfirst, hnew, ih.mpr ⟨hall, hnodup, ?_⟩, rfl⟩
        intro other hother hmem
        rcases List.mem_cons.mp hmem with heq | hmem
        · exact hdistinct (heq ▸ List.mem_map_of_mem hother)
        · exact hnews other hother hmem

/-- **The first trouble counts**: an argument that offends, or one that repeats a target. -/
theorem ofArgumentsAfter_eq_error_iff :
    ofArgumentsAfter targets arguments = .error fault ↔
      ∃ before offending after changes, arguments = before ++ offending :: after ∧
        ofArgumentsAfter targets before = .ok changes ∧
        (Offends offending fault ∨ ∃ change, AsksFor offending change ∧
          change.target ∈ changes.map Change.target ++ targets ∧
          fault = .duplicateTarget change.target.display) := by
  induction arguments generalizing targets with
  | nil =>
      constructor
      · nofun
      · rintro ⟨before, offending, after, _, hsplit, _⟩
        simp at hsplit
  | cons argument arguments ih =>
      rw [ofArgumentsAfter_cons_eq_error]
      constructor
      · rintro (hoffends | ⟨change, hasks, ⟨hmem, rfl⟩ | ⟨hnew, hrest⟩⟩)
        · exact ⟨[], argument, arguments, [], rfl, rfl, .inl hoffends⟩
        · exact ⟨[], argument, arguments, [], rfl, rfl, .inr ⟨change, hasks, hmem, rfl⟩⟩
        · obtain ⟨before, offending, after, changes, rfl, hbefore, htrouble⟩ := ih.mp hrest
          refine ⟨argument :: before, offending, after, change :: changes, rfl,
            ofArgumentsAfter_cons_eq_ok.mpr ⟨change, changes, hasks, hnew, hbefore, rfl⟩, ?_⟩
          exact htrouble.imp_right fun ⟨other, hother, hmem, hfault⟩ =>
            ⟨other, hother, List.perm_middle.mem_iff.mp hmem, hfault⟩
      · rintro ⟨before, offending, after, changes, hsplit, hbefore, htrouble⟩
        obtain _ | ⟨first, before⟩ := before
        · cases hsplit
          cases hbefore
          exact htrouble.imp_right fun ⟨change, hasks, hmem, hfault⟩ =>
            ⟨change, hasks, .inl ⟨hmem, hfault⟩⟩
        · cases hsplit
          obtain ⟨change, others, hasks, hnew, hothers, rfl⟩ :=
            ofArgumentsAfter_cons_eq_ok.mp hbefore
          refine .inr ⟨change, hasks, .inr ⟨hnew, ih.mpr
            ⟨before, offending, after, others, rfl, hothers, ?_⟩⟩⟩
          exact htrouble.imp_right fun ⟨other, hother, hmem, hfault⟩ =>
            ⟨other, hother, List.perm_middle.mem_iff.mpr hmem, hfault⟩

/-! ### Targets -/

/-- Every argument makes a change if each of them is well formed. -/
theorem exists_forall₂_asksFor_iff :
    (∃ changes, List.Forall₂ AsksFor arguments changes) ↔
      ∀ argument ∈ arguments, WellFormed argument := by
  induction arguments with
  | nil => exact ⟨fun _ => nofun, fun _ => ⟨[], .nil⟩⟩
  | cons argument arguments ih =>
      rw [List.forall_mem_cons, ← ih, wellFormed_iff]
      constructor
      · rintro ⟨_, _ | ⟨hasks, hall⟩⟩
        exact ⟨⟨_, hasks⟩, _, hall⟩
      · rintro ⟨⟨_, hasks⟩, _, hall⟩
        exact ⟨_, .cons hasks hall⟩

/-- Among the targets of changes is one if some argument aims at it. -/
theorem mem_targets_iff (hall : List.Forall₂ AsksFor arguments changes)
    (hasks : AsksFor argument change) :
    change.target ∈ changes.map Change.target ↔
      ∃ other ∈ arguments, SameTarget argument other := by
  induction hall with
  | nil => simp
  | cons hfirst _ ih => simp [ih, hasks.sameTarget_iff hfirst]

/-- No path is changed twice if no two arguments go to the same path. -/
theorem nodup_targets_iff (hall : List.Forall₂ AsksFor arguments changes) :
    (changes.map Change.target).Nodup ↔
      arguments.Pairwise fun first second => ¬ SameTarget first second := by
  induction hall with
  | nil => simp
  | cons hfirst hrest ih =>
      rw [List.map_cons, List.nodup_cons, List.pairwise_cons, ih, mem_targets_iff hrest hfirst]
      simp

/-- The keyword spells what the head does, with the token of a function behind it or with none
at all. -/
def Spells (keyword head : String) : Prop :=
  (∃ function : UpdateFunction, keyword = head ++ separator ++ Operation.token function) ∨
    keyword = head ∧ ∀ front, ∀ function : UpdateFunction,
      keyword ≠ front ++ separator ++ Operation.token function

/-- The head of a keyword spells the path that the keyword resolves to. -/
theorem Spells.parse_eq {keyword head : String} (h : Spells keyword head)
    (hresolve : resolve UpdateFunction keyword = .ok (target, function)) :
    AttributePath.parse head = .ok target := by
  rcases h with ⟨own, rfl⟩ | ⟨rfl, hnone⟩
  · exact ((standsFor_token head own).eq_of_resolve hresolve).1
  · exact ((standsFor_whole hnone).eq_of_resolve hresolve).1

/-- Keywords that differ in their functions only aim at one target. -/
theorem Spells.sameTarget {first second : String × Value} {head : String}
    (h : Spells first.1 head) (hother : Spells second.1 head) (hwell : WellFormed first)
    (hwell' : WellFormed second) : SameTarget first second := by
  obtain ⟨target, function, hresolve, _⟩ := hwell
  obtain ⟨target', function', hresolve', _⟩ := hwell'
  have hparse := h.parse_eq hresolve
  rw [hother.parse_eq hresolve'] at hparse
  cases hparse
  exact ⟨_, function, function', hresolve, hresolve'⟩

/-! ### The compiler -/

/-- The argument is well-formed, but its target, which the fault shows, is that of an earlier
one. -/
structure Repeats (before : Fields Value) (argument : String × Value) (fault : Fault) : Prop where
  wellFormed : WellFormed argument
  earlier : ∃ other ∈ before, SameTarget argument other
  fault_eq : ∃ target function, resolve UpdateFunction argument.1 = .ok (target, function) ∧
    fault = .duplicateTarget target.display

/-- What arguments come to when they are compiled into changes. -/
structure CompilesChanges (arguments : Fields Value) (outcome : Except Fault (List Change)) :
    Prop where
  /-- They are compiled exactly if there are some, all well-formed and no two at one target. -/
  accepted_iff : (∃ changes, outcome = .ok changes) ↔
    arguments ≠ [] ∧ (∀ argument ∈ arguments, WellFormed argument) ∧
      arguments.Pairwise fun first second => ¬ SameTarget first second
  /-- Keywords that differ in their functions only are not compiled together. -/
  suffixes : ∀ head first second, Spells first.1 head → Spells second.1 head →
    [first, second].Sublist arguments → ∀ changes, outcome ≠ .ok changes
  /-- There is one change for each argument, in their order, and each at another target. -/
  kept : ∀ changes, outcome = .ok changes →
    List.Forall₂ Follows arguments changes ∧ (changes.map Change.target).Nodup
  /-- Otherwise the fault is that of the first argument that offends or repeats a target. -/
  refused_iff : ∀ fault, outcome = .error fault ↔
    arguments = [] ∧ fault = .malformedUpdate "" "nothing to update" ∨
      ∃ before offending after, arguments = before ++ offending :: after ∧
        (∀ argument ∈ before, WellFormed argument) ∧
        (before.Pairwise fun first second => ¬ SameTarget first second) ∧
        (Offends offending fault ∨ Repeats before offending fault)

/-- Where there are arguments, they are taken one after the other. -/
theorem ofArguments_eq (hne : arguments ≠ []) :
    ofArguments arguments = ofArgumentsAfter [] arguments := by
  cases arguments with
  | nil => exact absurd rfl hne
  | cons argument arguments => rfl

/-- An update is what its arguments ask for, each of them and in their order. -/
theorem ofArguments_eq_ok_iff :
    ofArguments arguments = .ok changes ↔
      arguments ≠ [] ∧ List.Forall₂ AsksFor arguments changes ∧
        (changes.map Change.target).Nodup := by
  by_cases hne : arguments = []
  · subst hne
    exact ⟨nofun, fun h => absurd rfl h.1⟩
  · rw [ofArguments_eq hne, ofArgumentsAfter_eq_ok_iff]
    simp [hne]

/-- What stands in front of the first trouble is compiled. -/
theorem exists_ofArgumentsAfter_iff :
    (∃ changes, ofArgumentsAfter [] arguments = .ok changes) ↔
      (∀ argument ∈ arguments, WellFormed argument) ∧
        arguments.Pairwise fun first second => ¬ SameTarget first second := by
  simp only [ofArgumentsAfter_eq_ok_iff]
  constructor
  · rintro ⟨changes, hall, hnodup, _⟩
    exact ⟨exists_forall₂_asksFor_iff.mp ⟨changes, hall⟩, (nodup_targets_iff hall).mp hnodup⟩
  · rintro ⟨hwell, hdistinct⟩
    obtain ⟨changes, hall⟩ := exists_forall₂_asksFor_iff.mpr hwell
    exact ⟨changes, hall, (nodup_targets_iff hall).mpr hdistinct, fun _ _ => List.not_mem_nil⟩

/-- **What is accepted as an update**: well-formed arguments, at least one, of which no two go to
the same path. -/
theorem accepted_iff (arguments : Fields Value) :
    (∃ changes, ofArguments arguments = .ok changes) ↔
      arguments ≠ [] ∧ (∀ argument ∈ arguments, WellFormed argument) ∧
        arguments.Pairwise fun first second => ¬ SameTarget first second := by
  by_cases hne : arguments = []
  · subst hne
    exact ⟨fun ⟨_, h⟩ => (nomatch h), fun h => absurd rfl h.1⟩
  · rw [ofArguments_eq hne, exists_ofArgumentsAfter_iff]
    simp [hne]

/-- An argument repeats an earlier one if its change goes to a path that is already changed. -/
theorem repeats_iff {before : Fields Value} (hall : List.Forall₂ AsksFor before changes) :
    Repeats before argument fault ↔ ∃ change, AsksFor argument change ∧
      change.target ∈ changes.map Change.target ∧
      fault = .duplicateTarget change.target.display := by
  constructor
  · rintro ⟨hwell, hearlier, target, function, hresolve, rfl⟩
    obtain ⟨change, hasks⟩ := wellFormed_iff.mp hwell
    obtain ⟨other, hother, _⟩ := hasks.follows.made
    rw [hresolve] at hother
    cases hother
    exact ⟨change, hasks, (mem_targets_iff hall hasks).mpr hearlier, rfl⟩
  · rintro ⟨change, hasks, hmem, rfl⟩
    obtain ⟨function, hresolve, _⟩ := hasks.follows.made
    exact ⟨wellFormed_iff.mpr ⟨change, hasks⟩, (mem_targets_iff hall hasks).mp hmem,
      change.target, function, hresolve, rfl⟩

/-- **The update compiler accepts the well-formed arguments that aim at different targets**,
and each of them becomes the change that it asks for. -/
theorem compilesUpdates (arguments : Fields Value) :
    CompilesChanges arguments (ofArguments arguments) where
  accepted_iff := accepted_iff arguments
  suffixes head first second hfirst hsecond hsub changes h := by
    obtain ⟨_, hwell, hdistinct⟩ := (accepted_iff arguments).mp ⟨changes, h⟩
    have hpair := hdistinct.sublist hsub
    have hne : ¬ SameTarget first second := (List.pairwise_cons.mp hpair).1 second (by simp)
    exact hne (hfirst.sameTarget hsecond (hwell first (hsub.subset (by simp)))
      (hwell second (hsub.subset (by simp))))
  kept changes h := by
    obtain ⟨_, hall, hnodup⟩ := ofArguments_eq_ok_iff.mp h
    exact ⟨hall.imp fun _ _ => AsksFor.follows, hnodup⟩
  refused_iff fault := by
    by_cases hne : arguments = []
    · subst hne
      constructor
      · intro h
        cases h
        exact .inl ⟨rfl, rfl⟩
      · rintro (⟨_, rfl⟩ | ⟨before, offending, after, hsplit, _⟩)
        · rfl
        · simp at hsplit
    · rw [ofArguments_eq hne, ofArgumentsAfter_eq_error_iff]
      constructor
      · rintro ⟨before, offending, after, changes, hsplit, hbefore, htrouble⟩
        obtain ⟨hwell, hdistinct⟩ := exists_ofArgumentsAfter_iff.mp ⟨changes, hbefore⟩
        have hall := (ofArgumentsAfter_eq_ok_iff.mp hbefore).1
        rw [List.append_nil, ← repeats_iff hall] at htrouble
        exact .inr ⟨before, offending, after, hsplit, hwell, hdistinct, htrouble⟩
      · rintro (⟨hempty, _⟩ | ⟨before, offending, after, hsplit, hwell, hdistinct, htrouble⟩)
        · exact absurd hempty hne
        · obtain ⟨changes, hbefore⟩ := exists_ofArgumentsAfter_iff.mpr ⟨hwell, hdistinct⟩
          have hall := (ofArgumentsAfter_eq_ok_iff.mp hbefore).1
          rw [repeats_iff hall] at htrouble
          refine ⟨before, offending, after, changes, hsplit, hbefore, ?_⟩
          rwa [List.append_nil]

/-- A repeated target counts before the value behind it that cannot be deleted. -/
example : ofArguments [("foo", .number "1"), ("foo__plus", .number "2"),
    ("bar__delete", .number "1")] = .error (.duplicateTarget "foo") := by
  rfl

end Change

end KeywordTable
