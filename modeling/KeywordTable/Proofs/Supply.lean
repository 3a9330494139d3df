import KeywordTable.Placeholders
import Mathlib.Data.List.Basic
import Mathlib.Data.List.Forall2
import Mathlib.Logic.Relation

/-!
# The life of a supply

A supply of placeholders changes in two ways only: somebody asks for the token of
a name, or for the token of a value.  `Reaches` closes these two moves into the
order of time.

The key local fact is `lookup_internName`: the token that was handed out for a
name stands for that name in the map of **every** later state, because names are
added at the end and the token is the place.  The same holds of values.
-/

namespace KeywordTable

namespace Placeholders

/-- One more token is asked for. -/
inductive Asks : Placeholders → Placeholders → Prop
  | name (supply : Placeholders) (name : String) : Asks supply (internName name supply).2
  | value (supply : Placeholders) (value : Value) : Asks supply (internValue value supply).2

/-- The second state is the first one or a later one of the same supply. -/
def Reaches : Placeholders → Placeholders → Prop := Relation.ReflTransGen Asks

theorem Reaches.refl (supply : Placeholders) : supply.Reaches supply :=
  Relation.ReflTransGen.refl

theorem Reaches.trans {first second third : Placeholders}
    (h₁ : first.Reaches second) (h₂ : second.Reaches third) : first.Reaches third :=
  Relation.ReflTransGen.trans h₁ h₂

/-! ### What is kept -/

/-- The names that have tokens keep their places when a name is taken. -/
theorem names_kept_internName (name : String) (supply : Placeholders) :
    supply.names <+: (internName name supply).2.names := by
  rw [names_internName]
  split
  · exact List.prefix_refl _
  · exact List.prefix_append _ _

theorem values_kept_internValue (value : Value) (supply : Placeholders) :
    supply.values <+: (internValue value supply).2.values := by
  rw [values_internValue]
  split
  · exact List.prefix_refl _
  · exact List.prefix_append _ _

/-- Later states only add names at the end. -/
theorem Reaches.names_kept {supply later : Placeholders} (h : supply.Reaches later) :
    supply.names <+: later.names := by
  induction h with
  | refl => exact List.prefix_refl _
  | tail _ hask ih =>
      cases hask with
      | name name => exact ih.trans (names_kept_internName name _)
      | value value => rwa [names_internValue]

/-- Later states only add values at the end. -/
theorem Reaches.values_kept {supply later : Placeholders} (h : supply.Reaches later) :
    supply.values <+: later.values := by
  induction h with
  | refl => exact List.prefix_refl _
  | tail _ hask ih =>
      cases hask with
      | name name => rwa [values_internName]
      | value value => exact ih.trans (values_kept_internValue value _)

/-! ### Tokens and the maps -/

/-- Numbers are written differently. -/
theorem toString_injective : Function.Injective (fun place : Nat => toString place) := by
  intro i j h
  have hdigits : Nat.toDigits 10 i = Nat.toDigits 10 j := by
    rw [← Nat.toList_repr, ← Nat.toList_repr]
    exact congrArg String.toList h
  rw [← Nat.ofDigitChars_ten_toDigits (n := i), hdigits, Nat.ofDigitChars_ten_toDigits]

/-- Each place has a name token of its own. -/
theorem nameToken_injective : Function.Injective nameToken := by
  intro i j h
  exact toString_injective (String.append_right_inj _ |>.mp h)

theorem valueToken_injective : Function.Injective valueToken := by
  intro i j h
  exact toString_injective (String.append_right_inj _ |>.mp h)

/-- In a numbered list, the token of a place finds what stands there. -/
theorem lookup_mapIdx {α : Type} {token : Nat → String} (htoken : Function.Injective token)
    (xs : List α) (place : Nat) :
    (xs.mapIdx fun i x => (token i, x)).lookup (token place) = xs[place]? := by
  induction xs generalizing token place with
  | nil => simp
  | cons x xs ih =>
      rw [List.mapIdx_cons, List.lookup_cons]
      cases place with
      | zero => simp
      | succ place =>
          have hne : token (place + 1) ≠ token 0 := fun h => by simpa using htoken h
          have hnext : Function.Injective fun i => token (i + 1) :=
            fun i j h => by simpa using htoken h
          rw [beq_false_of_ne hne]
          exact ih hnext place

/-- A name token stands for the name at its place. -/
theorem lookup_nameMap (supply : Placeholders) (place : Nat) :
    supply.nameMap.lookup (nameToken place) = supply.names[place]? :=
  lookup_mapIdx nameToken_injective _ _

theorem lookup_valueMap (supply : Placeholders) (place : Nat) :
    supply.valueMap.lookup (valueToken place) = supply.values[place]? :=
  lookup_mapIdx valueToken_injective _ _

/-- What stands at a place stands there in every extension. -/
theorem getElem?_of_extends {α : Type} {xs ys : List α} (h : xs <+: ys) {place : Nat} {x : α}
    (hx : xs[place]? = some x) : ys[place]? = some x := by
  obtain ⟨hplace, rfl⟩ := List.getElem?_eq_some_iff.mp hx
  exact List.prefix_iff_getElem?.mp h place hplace

/-- The first place of something that is in a list, or was just put at its end. -/
theorem getElem?_idxOf_append {α : Type} [DecidableEq α] (xs : List α) (x : α) :
    (if x ∈ xs then xs else xs ++ [x])[xs.idxOf x]? = some x := by
  by_cases h : x ∈ xs
  · rw [if_pos h]
    exact List.getElem?_idxOf h
  · rw [if_neg h, List.idxOf_eq_length h]
    simp

/-- **A token keeps its meaning.**  The token handed out for a name stands for it
in every later state. -/
theorem lookup_internName {name : String} {supply later : Placeholders}
    (h : (internName name supply).2.Reaches later) :
    later.nameMap.lookup (internName name supply).1 = some name := by
  have hplace := getElem?_idxOf_append supply.names name
  rw [← names_internName] at hplace
  exact (lookup_nameMap later _).trans (getElem?_of_extends h.names_kept hplace)

/-- The token handed out for a value stands for it in every later state. -/
theorem lookup_internValue {value : Value} {supply later : Placeholders}
    (h : (internValue value supply).2.Reaches later) :
    later.valueMap.lookup (internValue value supply).1 = some value := by
  have hplace := getElem?_idxOf_append supply.values value
  rw [← values_internValue] at hplace
  exact (lookup_valueMap later _).trans (getElem?_of_extends h.values_kept hplace)

end Placeholders

end KeywordTable
