import KeywordTable.Proofs.Paging

/-!
# Conversations

A **program** is a run for every store that it may be given.  `Makes` says which exchanges
a program makes with one store, and how it ends; keeping the exchanges beside the state
changes neither.  The laws below follow the way programs are made: a program that ends well
goes on where it left the store, and one that fails stops there.

A fault that a store answers stops everything that sends it calls, so of all the answers
only the last can be one.  `EndsIn` says so.
-/

namespace KeywordTable

variable {σ α β : Type}

/-- A run that talks to whatever store it is given. -/
abbrev Program (α : Type) := (τ : Type) → Store τ → Run τ α

/-- With this store the program makes these exchanges and ends so; the same when the
exchanges are kept. -/
structure Makes (program : Program α) (store : Store σ) (state : σ) (exchanges : List Exchange)
    (outcome : Except Fault α) (later : σ) : Prop where
  run : (program σ store).attempt state = (outcome, later)
  logged : ∀ log, (program (σ × List Exchange) store.logging).attempt (state, log) =
    (outcome, later, log ++ exchanges)
  serves : store.Serves state exchanges later

/-- A result that is known is given another form without the store. -/
theorem Run.ofExcept_bind_pure (outcome : Except Fault α) (f : α → β) :
    (Run.ofExcept outcome >>= fun x => pure (f x) : Run σ β) = Run.ofExcept (outcome.map f) := by
  cases outcome <;> rfl

section Laws

variable {store : Store σ} {state middle later : σ} {exchanges more : List Exchange}

/-- A program that returns makes no exchange. -/
theorem makes_pure (x : α) (state : σ) :
    Makes (fun _ _ => pure x) store state [] (.ok x) state where
  run := rfl
  logged log := by
    rw [List.append_nil]
    rfl
  serves := .nil state

/-- So does a program that only fails. -/
theorem makes_ofExcept (outcome : Except Fault α) (state : σ) :
    Makes (fun _ _ => Run.ofExcept outcome) store state [] outcome state where
  run := rfl
  logged log := by
    rw [List.append_nil]
    rfl
  serves := .nil state

/-- A call is one exchange. -/
theorem makes_answer {call : Call} {answer : Except Fault call.Reply}
    (h : (store.answer call).attempt state = (answer, later)) :
    Makes (fun _ store => store.answer call) store state [⟨call, answer⟩] answer later where
  run := h
  logged log := by
    rw [Run.attempt] at h
    simp only [Store.logging, Run.attempt, h]
  serves := .cons h (.nil later)

/-- A program that ends well goes on. -/
theorem Makes.bind {program : Program α} {next : (τ : Type) → Store τ → α → Run τ β} {x : α}
    {outcome : Except Fault β} (h : Makes program store state exchanges (.ok x) middle)
    (hnext : Makes (fun τ store => next τ store x) store middle more outcome later) :
    Makes (fun τ store => program τ store >>= next τ store) store state (exchanges ++ more)
      outcome later where
  run := by
    rw [Run.attempt_bind, h.run]
    exact hnext.run
  logged log := by
    rw [Run.attempt_bind, h.logged, ← List.append_assoc]
    exact hnext.logged _
  serves := Store.serves_append.mpr ⟨middle, h.serves, hnext.serves⟩

/-- A program that fails stops. -/
theorem Makes.bind_error {program : Program α} {next : (τ : Type) → Store τ → α → Run τ β}
    {fault : Fault} (h : Makes program store state exchanges (.error fault) later) :
    Makes (fun τ store => program τ store >>= next τ store) store state exchanges
      (.error fault) later where
  run := by
    rw [Run.attempt_bind, h.run]
  logged log := by
    rw [Run.attempt_bind, h.logged]
  serves := h.serves

/-- A program whose request is refused makes no exchange. -/
theorem makes_of_refused {request : Except Fault α} {fault : Fault}
    (h : request = .error fault) (next : (τ : Type) → Store τ → α → Run τ β) (state : σ) :
    Makes (fun τ store => Run.ofExcept request >>= next τ store) store state [] (.error fault)
      state := by
  subst h
  exact (makes_ofExcept (.error fault) state).bind_error

/-- A program whose request is accepted goes on with it. -/
theorem Makes.of_accepted {request : Except Fault α} {accepted : α}
    (h : request = .ok accepted) {next : (τ : Type) → Store τ → α → Run τ β}
    {outcome : Except Fault β}
    (hnext : Makes (fun τ store => next τ store accepted) store state exchanges outcome later) :
    Makes (fun τ store => Run.ofExcept request >>= next τ store) store state exchanges outcome
      later := by
  subst h
  exact (makes_ofExcept (.ok accepted) state).bind hnext

/-- What holds of a program whose request is refused, and whichever request is accepted. -/
theorem exists_makes_of_request {P : List Exchange → Except Fault β → σ → Prop}
    {request : Except Fault α} {next : (τ : Type) → Store τ → α → Run τ β}
    (hrefused : ∀ fault, request = .error fault → P [] (.error fault) state)
    (haccepted : ∀ accepted, request = .ok accepted → ∃ exchanges outcome later,
      Makes (fun τ store => next τ store accepted) store state exchanges outcome later ∧
        P exchanges outcome later) :
    ∃ exchanges outcome later,
      Makes (fun τ store => Run.ofExcept request >>= next τ store) store state exchanges outcome
        later ∧ P exchanges outcome later := by
  cases h : request with
  | error fault => exact ⟨[], _, state, makes_of_refused rfl next state, hrefused fault h⟩
  | ok accepted =>
      obtain ⟨exchanges, outcome, later, hmakes, hholds⟩ := haccepted accepted h
      exact ⟨exchanges, outcome, later, .of_accepted rfl hmakes, hholds⟩

/-- What a program ends with is computed further without the store. -/
theorem Makes.andThen {program : Program α} {outcome : Except Fault α}
    (h : Makes program store state exchanges outcome later) (next : α → Except Fault β) :
    Makes (fun τ store => program τ store >>= fun x => Run.ofExcept (next x)) store state exchanges
      (outcome >>= next) later := by
  cases outcome with
  | error fault => exact h.bind_error
  | ok x =>
      rw [← List.append_nil exchanges]
      exact h.bind (makes_ofExcept (next x) later)

/-- What a program hands back in another form. -/
theorem Makes.map {program : Program α} {outcome : Except Fault α}
    (h : Makes program store state exchanges outcome later) (f : α → β) :
    Makes (fun τ store => program τ store >>= fun x => pure (f x)) store state exchanges
      (outcome.map f) later := by
  cases outcome with
  | error fault => exact h.bind_error
  | ok x => exact h.andThen fun x => .ok (f x)

/-- What a fault is taken to mean changes the outcome and no exchange. -/
theorem Makes.mapFault {program : Program α} {outcome : Except Fault α}
    (h : Makes program store state exchanges outcome later) (meaning : Fault → Fault) :
    Makes (fun τ store => (program τ store).mapFault meaning) store state exchanges
      (outcome.mapError meaning) later where
  run := by
    have hrun := h.run
    rw [Run.attempt] at hrun ⊢
    simp only [Run.mapFault, hrun]
  logged log := by
    have hlogged := h.logged log
    rw [Run.attempt] at hlogged ⊢
    simp only [Run.mapFault, hlogged]
  serves := h.serves

end Laws

/-! ### Faults among the answers -/

/-- The fault of an answer, if it is one. -/
def faultOf : Except Fault α → Option Fault
  | .ok _ => none
  | .error fault => some fault

/-- The fault that the store answered, if it did. -/
def Exchange.fault? (exchange : Exchange) : Option Fault := faultOf exchange.answer

/-- Nothing failed, or only the last thing, and that with this fault. -/
def EndsIn (fault? : Option Fault) (faults : List (Option Fault)) : Prop :=
  ∃ count, faults = List.replicate count none ++ fault?.toList.map some

/-- No exchange ends in no fault. -/
theorem endsIn_nil : EndsIn none [] := ⟨0, rfl⟩

/-- An exchange that failed ends in its fault. -/
theorem endsIn_singleton (fault : Fault) : EndsIn (some fault) [some fault] := ⟨0, rfl⟩

/-- An exchange before it that did not fail does not matter. -/
theorem EndsIn.cons {fault? : Option Fault} {faults : List (Option Fault)}
    (h : EndsIn fault? faults) : EndsIn fault? (none :: faults) := by
  obtain ⟨count, rfl⟩ := h
  exact ⟨count + 1, rfl⟩

/-- One answer is the last. -/
theorem endsIn_fault? (exchange : Exchange) :
    EndsIn exchange.fault? ([exchange].map Exchange.fault?) := by
  rw [List.map_singleton]
  cases exchange.fault? with
  | none => exact endsIn_nil.cons
  | some fault => exact endsIn_singleton fault

/-- Two conversations end as the second does, if the first did not fail. -/
theorem EndsIn.append {fault? : Option Fault} {faults more : List (Option Fault)}
    (h : EndsIn none faults) (hmore : EndsIn fault? more) : EndsIn fault? (faults ++ more) := by
  obtain ⟨count, rfl⟩ := h
  obtain ⟨count', rfl⟩ := hmore
  refine ⟨count + count', ?_⟩
  rw [List.replicate_add]
  simp only [Option.toList_none, List.map_nil, List.append_nil, List.append_assoc]

end KeywordTable
