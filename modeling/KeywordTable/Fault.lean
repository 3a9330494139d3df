import KeywordTable.Fields

/-!
# Faults

Everything that can go wrong between a caller and a store, by cause.  The first
group is found before a store is asked anything: keywords, paths, keys, options
and values that cannot be used.  The second group is reported by the store or by
the way to it.

`Fault.message` is the one place where a fault is put into words, and
`Fault.retryable` singles out the two causes that asking again may cure.
-/

namespace KeywordTable

/-- What a validator has against an item: messages by field, in the order of the
field names. -/
abbrev Violations := Fields (List String)

/-- The violations in words: fields apart by semicolons, messages of a field by
commas. -/
def Violations.message (violations : Violations) : String :=
  match violations with
  | [] => "validation failed"
  | _ =>
    "validation failed: " ++
      "; ".intercalate (violations.map fun field => field.1 ++ ": " ++ ", ".intercalate field.2)

/-- The cause of a failure. -/
inductive Fault where
  /-- A keyword cannot be read as a condition. -/
  | malformedCondition (keyword reason : String)
  /-- A keyword cannot be read as a change. -/
  | malformedUpdate (keyword reason : String)
  /-- A text is not the path of an attribute. -/
  | invalidPath (text : String)
  /-- Two changes of one update aim at the same path. -/
  | duplicateTarget (path : String)
  /-- Two options of a paged read exclude each other. -/
  | conflictingOptions (reason : String)
  /-- A paged read was configured after its first page. -/
  | alreadyBound
  /-- A paged read has no page left to continue with. -/
  | noMorePages
  /-- The key attributes given are not those of the table. -/
  | invalidKey (reason : String)
  /-- The table declares no index of this name. -/
  | unknownIndex (name : String)
  /-- The precondition of a write does not hold. -/
  | conditionFailed (reason : String)
  /-- A new item has the hash key of an old one. -/
  | hashKeyExists
  /-- An item does not pass its validator. -/
  | invalid (violations : Violations)
  /-- A value has no form in the store, or an item none outside of it. -/
  | unserializable (reason : String)
  /-- The store asks to slow down. -/
  | throttled (reason : String)
  /-- The store cannot be reached or not be understood. -/
  | unreachable (reason : String)
deriving DecidableEq

namespace Fault

/-- The fault in words. -/
def message : Fault → String
  | .malformedCondition keyword reason => "malformed condition `" ++ keyword ++ "`: " ++ reason
  | .malformedUpdate keyword reason => "malformed update `" ++ keyword ++ "`: " ++ reason
  | .invalidPath text => "invalid attribute path `" ++ text ++ "`"
  | .duplicateTarget path =>
    "attribute `" ++ path ++ "` is targeted more than once in the same update"
  | .conflictingOptions reason => "conflicting iterator options: " ++ reason
  | .alreadyBound =>
    "the iterator is already bound to its first page and can no longer be configured"
  | .noMorePages => "there are no more pages to read"
  | .invalidKey reason => "invalid key: " ++ reason
  | .unknownIndex name => "unknown index `" ++ name ++ "`"
  | .conditionFailed reason => "conditional check failed: " ++ reason
  | .hashKeyExists => "an item with the same hash key already exists"
  | .invalid violations => violations.message
  | .unserializable reason => reason
  | .throttled reason => "request throttled: " ++ reason
  | .unreachable reason => "transport error: " ++ reason

/-- May the same call succeed when it is made again? -/
def retryable : Fault → Bool
  | .conditionFailed _ | .throttled _ => true
  | _ => false

end Fault

/-! ### Results that may be faults -/

variable {α β γ : Type}

/-- Parts that are computed one after the other. -/
theorem bind_eq_ok_iff {first : Except Fault α} {next : α → Except Fault β} {result : β} :
    (first >>= next) = .ok result ↔ ∃ x, first = .ok x ∧ next x = .ok result := by
  cases first <;> simp [bind, Except.bind]

/-- Two parts of one result. -/
theorem map₂_eq_ok_iff {left : Except Fault α} {right : Except Fault β} {make : α → β → γ}
    {result : γ} :
    (do let x ← left; let y ← right; return make x y) = .ok result ↔
      ∃ x y, left = .ok x ∧ right = .ok y ∧ result = make x y := by
  rw [bind_eq_ok_iff]
  constructor
  · rintro ⟨x, hx, hrest⟩
    obtain ⟨y, hy, hpure⟩ := bind_eq_ok_iff.mp hrest
    cases hpure
    exact ⟨x, y, hx, hy, rfl⟩
  · rintro ⟨x, y, hx, hy, rfl⟩
    exact ⟨x, hx, bind_eq_ok_iff.mpr ⟨y, hy, rfl⟩⟩

/-- Checks that are made one after the other. -/
theorem forM_eq_ok_iff {check : α → Except Fault Unit} {xs : List α} :
    xs.forM check = .ok () ↔ ∀ x ∈ xs, check x = .ok () := by
  induction xs with
  | nil => simp [pure, Except.pure]
  | cons x xs ih =>
      show (check x >>= fun _ => xs.forM check) = .ok () ↔ _
      rw [bind_eq_ok_iff, List.forall_mem_cons, ← ih]
      constructor
      · rintro ⟨_, hx, hxs⟩
        exact ⟨hx, hxs⟩
      · rintro ⟨hx, hxs⟩
        exact ⟨(), hx, hxs⟩

/-- What makes parts fail that are computed one after the other. -/
theorem bind_eq_error_iff {first : Except Fault α} {next : α → Except Fault β} {fault : Fault} :
    (first >>= next) = .error fault ↔
      first = .error fault ∨ ∃ x, first = .ok x ∧ next x = .error fault := by
  cases first <;> simp [bind, Except.bind]

/-- A list has results if each of its members has one. -/
theorem exists_mapM_eq_ok_iff {f : α → Except Fault β} {xs : List α} :
    (∃ ys, xs.mapM f = .ok ys) ↔ ∀ x ∈ xs, ∃ y, f x = .ok y := by
  induction xs with
  | nil => simp [pure, Except.pure]
  | cons x xs ih =>
      rw [List.forall_mem_cons, ← ih, List.mapM_cons]
      constructor
      · rintro ⟨_, hresults⟩
        obtain ⟨y, ys, hx, hxs, _⟩ := map₂_eq_ok_iff.mp hresults
        exact ⟨⟨y, hx⟩, ys, hxs⟩
      · rintro ⟨⟨y, hx⟩, ys, hxs⟩
        exact ⟨y :: ys, map₂_eq_ok_iff.mpr ⟨y, ys, hx, hxs, rfl⟩⟩

/-- The results of a list are those of its members. -/
theorem mapM_eq_ok_iff {f : α → Except Fault β} {xs : List α} {ys : List β} :
    xs.mapM f = .ok ys ↔ xs.map f = ys.map .ok := by
  induction xs generalizing ys with
  | nil => cases ys <;> simp [pure, Except.pure]
  | cons x xs ih =>
      rw [List.mapM_cons, map₂_eq_ok_iff]
      constructor
      · rintro ⟨y, ys, hx, hxs, rfl⟩
        rw [List.map_cons, List.map_cons, hx, ih.mp hxs]
      · intro h
        cases ys with
        | nil => cases h
        | cons y ys =>
            obtain ⟨hx, hxs⟩ := List.cons.inj h
            exact ⟨y, ys, hx, ih.mpr hxs, rfl⟩

/-- **The first failure counts.**  The fault of a list is that of the first member that has one. -/
theorem mapM_eq_error_iff {f : α → Except Fault β} {xs : List α} {fault : Fault} :
    xs.mapM f = .error fault ↔
      ∃ before x after, xs = before ++ x :: after ∧ (∀ y ∈ before, ∃ z, f y = .ok z) ∧
        f x = .error fault := by
  induction xs with
  | nil => simp [pure, Except.pure]
  | cons x xs ih =>
      rw [List.mapM_cons, bind_eq_error_iff]
      constructor
      · rintro (hfirst | ⟨y, hfirst, hrest⟩)
        · exact ⟨[], x, xs, rfl, by simp, hfirst⟩
        · rcases bind_eq_error_iff.mp hrest with hxs | ⟨_, _, hpure⟩
          · obtain ⟨before, offending, after, rfl, hbefore, hfault⟩ := ih.mp hxs
            exact ⟨x :: before, offending, after, rfl,
              List.forall_mem_cons.mpr ⟨⟨y, hfirst⟩, hbefore⟩, hfault⟩
          · cases hpure
      · rintro ⟨before, offending, after, hxs, hbefore, hfault⟩
        cases before with
        | nil =>
            obtain ⟨rfl, rfl⟩ := List.cons.inj hxs
            exact .inl hfault
        | cons _ before =>
            obtain ⟨rfl, rfl⟩ := List.cons.inj hxs
            obtain ⟨⟨y, hfirst⟩, hbefore⟩ := List.forall_mem_cons.mp hbefore
            refine .inr ⟨y, hfirst, bind_eq_error_iff.mpr (.inl ?_)⟩
            exact ih.mpr ⟨before, offending, after, rfl, hbefore, hfault⟩

end KeywordTable
