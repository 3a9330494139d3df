import KeywordTable.Reader.Moves

/-!
# Configured readers

A reader is **configured** if it comes from a request, or from the end of another
reader, by options that were accepted.  What an option does and when it is accepted is said
once, by `Setting.apply_eq_ok_iff`.  Options change the request and two flags and nothing
else (`Setting.eq_of_apply`), so a configured reader has read nothing yet
(`Configured.fresh`).

The pages of one read differ in their `window` only: where they start, and how many
items they may look at.
-/

namespace KeywordTable

/-- The request for the page of the same read that starts here and looks at no more than
so many items. -/
def PageRequest.window (request : PageRequest) (start : Option Item) (limit : Option Int32) :
    PageRequest :=
  { request with read := { request.read with start, limit } }

namespace Reader

/-- An option that a reader takes while it is configuring. -/
inductive Setting where
  | limit (size : Int32)
  | start (key : Item)
  | consistent
  | reverse
  | specificAttributes (names : List String)
  | recursively
  | limitAcrossPages

/-- The reader with an option, if that is accepted. -/
def Setting.apply : Setting → Reader → Except Fault Reader
  | .limit size, reader => reader.limit size
  | .start key, reader => reader.start key
  | .consistent, reader => reader.consistent
  | .reverse, reader => reader.reverse
  | .specificAttributes names, reader => reader.specificAttributes names
  | .recursively, reader => reader.recursively
  | .limitAcrossPages, reader => reader.limitAcrossPages

/-- A reader as it is when nothing was asked of it. -/
inductive Configured : Reader → Prop
  | ofRequest (request : PageRequest) (validator : Validator) (incomplete : Bool) :
      Configured (.ofRequest request validator incomplete)
  | set {reader changed : Reader} (h : Configured reader) (setting : Setting)
      (hset : setting.apply reader = .ok changed) : Configured changed
  | again {reader fresh : Reader} (hagain : reader.again = .ok fresh) : Configured fresh

/-- Nothing was read. -/
structure Fresh (reader : Reader) : Prop where
  phase : reader.phase = .configuring
  buffer : reader.buffer = []
  pages : reader.pages = 0
  budget : reader.budget = none
  last : reader.last = none

/-- A change that is made is the one that was asked for. -/
theorem configure_eq_ok {reader changed : Reader} {change : Reader → Except Fault Reader}
    (h : reader.configure change = .ok changed) : change reader = .ok changed := by
  unfold configure at h
  split at h
  · exact h
  · exact absurd h (by simp [throw, throwThe, MonadExceptOf.throw])

/-- A reader that is no longer configuring takes no option. -/
theorem Setting.apply_eq_error {reader : Reader} (h : reader.phase ≠ .configuring)
    (setting : Setting) : setting.apply reader = .error .alreadyBound := by
  cases setting <;> exact if_neg h

/-- What an option does to a reader that takes it. -/
inductive Setting.Sets (reader : Reader) : Setting → Reader → Prop
  | limit (size : Int32) :
      Sets reader (.limit size) (reader.modifyRead ({ · with limit := some size }))
  | start (key : Item) :
      Sets reader (.start key) (reader.modifyRead ({ · with start := some key }))
  | consistent : Sets reader .consistent (reader.modifyRead ({ · with consistent := some true }))
  | reverse {keyCondition : Condition} {forward : Option Bool}
      (haccess : reader.request.access = .query keyCondition forward) :
      Sets reader .reverse
        { reader with
          request := { reader.request with access := .query keyCondition (some false) } }
  | specificAttributes {names : List String} {selection : Selection}
      (hparse : Selection.parse names = .ok selection) :
      Sets reader (.specificAttributes names) (reader.modifyRead ({ · with selection }))
  | recursively : Sets reader .recursively { reader with recursive := true }
  | limitAcrossPages : Sets reader .limitAcrossPages { reader with acrossPages := true }

/-- **What an option does**, and when it is accepted. -/
theorem Setting.apply_eq_ok_iff {reader changed : Reader} {setting : Setting} :
    setting.apply reader = .ok changed ↔
      reader.phase = .configuring ∧ setting.Sets reader changed := by
  constructor
  · intro h
    have hphase : reader.phase = .configuring := Decidable.byContradiction fun hbound => by
      rw [setting.apply_eq_error hbound] at h
      cases h
    refine ⟨hphase, ?_⟩
    cases setting with
    | limit | start | consistent | recursively | limitAcrossPages =>
        simp only [apply, Reader.limit, Reader.start, Reader.consistent, Reader.recursively,
          Reader.limitAcrossPages, configure, if_pos hphase] at h
        obtain rfl := Except.ok.inj h
        constructor
    | reverse =>
        simp only [apply, Reader.reverse, configure, if_pos hphase] at h
        cases haccess : reader.request.access with
        | query keyCondition forward =>
            simp only [haccess] at h
            obtain rfl := Except.ok.inj h
            exact .reverse haccess
        | scan =>
            simp only [haccess] at h
            cases h
    | specificAttributes names =>
        simp only [apply, Reader.specificAttributes, configure, if_pos hphase] at h
        obtain ⟨selection, hparse, hchange⟩ := bind_eq_ok_iff.mp h
        obtain rfl := Except.ok.inj hchange
        exact .specificAttributes hparse
  · rintro ⟨hphase, hsets⟩
    cases hsets with
    | limit | start | consistent | recursively | limitAcrossPages => exact if_pos hphase
    | reverse haccess =>
        simp only [apply, Reader.reverse, configure, if_pos hphase, haccess]
        rfl
    | specificAttributes hparse =>
        simp only [apply, Reader.specificAttributes, configure, if_pos hphase, hparse]
        rfl

/-- An option changes the request and the two flags, and nothing else. -/
theorem Setting.eq_of_apply {reader changed : Reader} {setting : Setting}
    (h : setting.apply reader = .ok changed) :
    ∃ request recursive acrossPages, changed = { reader with request, recursive, acrossPages } := by
  obtain ⟨-, hsets⟩ := Setting.apply_eq_ok_iff.mp h
  cases hsets with
  | limit | start | consistent | reverse | specificAttributes | recursively | limitAcrossPages =>
      exact ⟨_, _, _, rfl⟩

/-- A reader that is configured is fresh. -/
theorem Configured.fresh {reader : Reader} (h : reader.Configured) : reader.Fresh := by
  induction h with
  | ofRequest request validator incomplete => exact ⟨rfl, rfl, rfl, rfl, rfl⟩
  | set h setting hset ih =>
      obtain ⟨request, recursive, acrossPages, rfl⟩ := Setting.eq_of_apply hset
      exact ⟨ih.phase, ih.buffer, ih.pages, ih.budget, ih.last⟩
  | @again reader fresh hagain =>
      unfold Reader.again at hagain
      split at hagain
      · exact absurd hagain (by simp [throw, throwThe, MonadExceptOf.throw])
      · rw [← Except.ok.inj hagain]
        exact ⟨rfl, rfl, rfl, rfl, rfl⟩

/-- The limit caps a single page while all pages are read. -/
def HasConflict (reader : Reader) : Prop :=
  reader.recursive = true ∧ reader.request.read.limit.isSome ∧ reader.acrossPages = false

/-- The limit that is spent across the pages. -/
def allowance (reader : Reader) : Option Int32 :=
  if reader.recursive && reader.acrossPages then reader.request.read.limit else none

/-- Options that do not conflict are fixed. -/
theorem bindOptions_of_not_hasConflict {reader : Reader} (h : ¬ reader.HasConflict)
    (hbudget : reader.budget = none) :
    reader.bindOptions = .ok { reader with phase := .bound, budget := reader.allowance } := by
  have hcheck : (reader.recursive && reader.request.read.limit.isSome &&
      !reader.acrossPages) = false := by
    unfold HasConflict at h
    simpa using h
  simp [bindOptions, hcheck, hbudget, allowance, pure, Except.pure]

/-- The reader with its options fixed, before its first page. -/
def fixed (reader : Reader) : Reader := { reader with phase := .bound, budget := reader.allowance }

/-- The first page is asked for as the reader was told to: a limit that is spent across
pages is still whole. -/
theorem Fresh.pageRequest_fixed {reader : Reader} (hfresh : reader.Fresh) :
    reader.fixed.pageRequest = reader.request := by
  have hlimit : (reader.allowance <|> reader.request.read.limit) = reader.request.read.limit := by
    unfold allowance
    split
    · cases reader.request.read.limit <;> rfl
    · rfl
  simp only [fixed, pageRequest, hfresh.pages, hlimit, if_true]

/-- Without a limit, no options conflict. -/
theorem not_hasConflict_of_unlimited {reader : Reader} (h : reader.request.read.limit = none) :
    ¬ reader.HasConflict := by
  rintro ⟨_, hlimit, _⟩
  rw [h] at hlimit
  cases hlimit

/-! ### Going on after a page -/

/-- A new reader with the same options that starts after a key. -/
def startingAfter (reader : Reader) (key : Item) : Reader :=
  { reader with
    request := reader.request.window (some key) reader.request.read.limit
    phase := .configuring, buffer := [], pages := 0, budget := none, last := none }

/-- After a page with a successor, a new reader starts there. -/
theorem again_eq_ok {reader : Reader} {key : Item} (h : reader.last = some key) :
    reader.again = .ok (reader.startingAfter key) := by
  unfold again
  rw [h]
  rfl

/-- After the final page there is nothing to go on with. -/
theorem again_eq_error {reader : Reader} (h : reader.last = none) :
    reader.again = .error .noMorePages := by
  unfold again
  rw [h]
  rfl

/-- A reader that starts after a page is fresh again. -/
theorem fresh_startingAfter (reader : Reader) (key : Item) : (reader.startingAfter key).Fresh :=
  ⟨rfl, rfl, rfl, rfl, rfl⟩

end Reader

end KeywordTable
