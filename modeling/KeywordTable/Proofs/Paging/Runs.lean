import KeywordTable.Proofs.Paging.History

/-!
# Runs

A **run** is any number of moves.  `Steps` says what can be seen of one, whatever a
store answers; `Shows` says what is seen of a reader when calls are made against a
store.  `shows_iff` ties them: calls show exactly the runs whose exchanges the store
serves.  Two readers, or two stores, are compared on runs, and only the results of the
comparison speak of calls.

A run leaves the options as they are and the token of the last page (`Steps.last_eq`).  It
is determined by its answers (`Steps.cancel`), it goes nowhere after the end
(`Steps.eq_of_exhausted`), and it can be cut where the end is announced or where a page
fails (`Steps.split_ended`, `Steps.split_fault`).
-/

namespace KeywordTable

variable {σ : Type}

open Event

namespace Reader

variable {reader middle left : Reader} {exchanges : List Exchange} {events : List Event}
  {move : Move}

/-- What can be seen of any number of moves. -/
inductive Steps : Reader → List Event → Reader → Prop
  | refl (reader : Reader) : Steps reader [] reader
  | step {reader middle left : Reader} {exchanges : List Exchange} {move : Move}
      {events : List Event} (hstep : reader.Step exchanges move middle)
      (hrest : Steps middle events left) :
      Steps reader (Pull.events ⟨exchanges, move⟩ ++ events) left

/-- What is seen of a reader in some calls, and what these leave. -/
def Shows (store : Store σ) (reader : Reader) (state : σ) (history : List Event)
    (left : Reader) (later : σ) : Prop :=
  ∃ calls pulls, reader.pulls store calls state = ((pulls, left), later) ∧
    historyOf pulls = history

/-- What calls show is what happens in them. -/
theorem shows_pulls (store : Store σ) (reader : Reader) (state : σ) (calls : List Nat) :
    Shows store reader state (historyOf (reader.pulls store calls state).1.1)
      (reader.pulls store calls state).1.2 (reader.pulls store calls state).2 :=
  ⟨calls, _, rfl, rfl⟩

/-- A move is a run of its own. -/
theorem Step.steps (h : reader.Step exchanges move left) :
    Steps reader (Pull.events ⟨exchanges, move⟩) left := by
  simpa using Steps.step h (.refl left)

/-- Runs come one after the other. -/
theorem Steps.trans {more : List Event} (h : Steps reader events middle)
    (hmore : Steps middle more left) : Steps reader (events ++ more) left := by
  induction h with
  | refl reader => exact hmore
  | step hstep _ ih =>
      rw [List.append_assoc]
      exact .step hstep (ih hmore)

/-! ### Calls and moves -/

/-- A call makes some moves. -/
theorem Next.steps {moves : Nat} (h : Next moves reader exchanges move left) :
    Steps reader (Pull.events ⟨exchanges, move⟩) left := by
  induction h with
  | waiting reader => exact .refl reader
  | @turned moves reader middle left exchanges more move hstep hnext ih =>
      have hevents : Pull.events ⟨exchanges ++ more, move⟩ =
          Pull.events ⟨exchanges, .turned⟩ ++ Pull.events ⟨more, move⟩ := by
        simp [Pull.events, Move.events]
      rw [hevents]
      exact .step hstep ih
  | done hstep _ => exact hstep.steps

/-- The first of some calls, and the others. -/
theorem pulls_cons {store : Store σ} {state between : σ} {moves : Nat}
    (hlog : (reader.next store.logging (moves + 1) (state, [])).2.2 = exchanges)
    (hnext : reader.next store (moves + 1) state = ((move, middle), between)) (calls : List Nat) :
    reader.pulls store (moves :: calls) state =
      ((⟨exchanges, move⟩ :: (middle.pulls store calls between).1.1,
        (middle.pulls store calls between).1.2), (middle.pulls store calls between).2) := by
  simp only [pulls, hlog, hnext]
  rfl

/-- Calls make moves, and the store serves their exchanges. -/
theorem steps_pulls (store : Store σ) (calls : List Nat) (reader : Reader) (state : σ) :
    Steps reader (historyOf (reader.pulls store calls state).1.1)
        (reader.pulls store calls state).1.2 ∧
      store.Serves state (Event.exchanges (historyOf (reader.pulls store calls state).1.1))
        (reader.pulls store calls state).2 := by
  induction calls generalizing reader state with
  | nil => exact ⟨.refl reader, .nil state⟩
  | cons moves calls ih =>
      obtain ⟨exchanges, hlog, hserves, hnext⟩ := next_logging store (moves + 1) reader state []
      have hexchanges : (reader.next store.logging (moves + 1) (state, [])).2.2 = exchanges := by
        rw [hlog, List.nil_append]
      obtain ⟨hsteps, hserves'⟩ := ih (reader.next store (moves + 1) state).1.2
        (reader.next store (moves + 1) state).2
      rw [pulls_cons hexchanges rfl, historyOf, List.flatMap_cons, exchanges_append,
        exchanges_events]
      exact ⟨hnext.steps.trans hsteps, Store.serves_append.mpr ⟨_, hserves, hserves'⟩⟩

/-- A call that may make one move makes it. -/
theorem next_one (store : Store σ) (reader : Reader) : reader.next store 1 = reader.step store := by
  funext state
  simp only [next, bind_apply]
  rcases reader.step store state with ⟨⟨move, middle⟩, later⟩
  cases move <;> rfl

/-- **What calls show.**  They show the runs whose exchanges the store serves; calls of one
move each show them all. -/
theorem shows_iff {store : Store σ} {state later : σ} :
    Shows store reader state events left later ↔
      Steps reader events left ∧ store.Serves state (Event.exchanges events) later := by
  constructor
  · rintro ⟨calls, pulls, hpulls, rfl⟩
    have hsteps := steps_pulls store calls reader state
    rw [hpulls] at hsteps
    exact hsteps
  · rintro ⟨hsteps, hserves⟩
    induction hsteps generalizing state with
    | refl reader =>
        cases hserves
        exact ⟨[], [], rfl, rfl⟩
    | @step reader middle left exchanges move events hstep hrest ih =>
        rw [exchanges_append, exchanges_events] at hserves
        obtain ⟨between, hfirst, hmore⟩ := Store.serves_append.mp hserves
        obtain ⟨calls, pulls, hpulls, rfl⟩ := ih hmore
        have hnext : reader.next store 1 state = ((move, middle), between) := by
          rw [next_one]
          exact step_eq_of_serves hstep hfirst
        have hlog : (reader.next store.logging 1 (state, [])).2.2 = exchanges := by
          rw [next_one, step_eq_of_serves hstep (hfirst.logging []), List.nil_append]
        refine ⟨0 :: calls, ⟨exchanges, move⟩ :: pulls, ?_, by simp [historyOf]⟩
        rw [pulls_cons hlog hnext, hpulls]

/-! ### The first page -/

/-- A reader that nothing was asked of, and whose options agree, needs a page. -/
theorem Fresh.turns (hfresh : reader.Fresh) (hconflict : ¬ reader.HasConflict) :
    reader.Turns reader.fixed :=
  .first hfresh.phase (bindOptions_of_not_hasConflict hconflict hfresh.budget)

/-- The first thing that is seen of the reader, whatever a store answers, is this call. -/
def FirstMakes (reader : Reader) (call : Call) : Prop :=
  ∀ (τ : Type) (store : Store τ) (state : τ) (history : List Event) (left : Reader) (later : τ),
    Shows store reader state history left later → history ≠ [] →
    ∃ exchange rest, history = .asked exchange :: rest ∧ exchange.call = call

/-- A reader that has read nothing first asks for its first page. -/
theorem Fresh.firstMakes (hfresh : reader.Fresh) (hconflict : ¬ reader.HasConflict) :
    reader.FirstMakes reader.request.toCall := by
  intro τ store state history left later hshows hne
  obtain ⟨hsteps, -⟩ := shows_iff.mp hshows
  cases hsteps with
  | refl => exact absurd rfl hne
  | step hstep hrest =>
      obtain ⟨answer, rfl, -⟩ := hstep.eq_of_turns (hfresh.turns hconflict)
      rw [hfresh.pageRequest_fixed]
      exact ⟨_, _, rfl, PageRequest.call_exchange _ answer⟩

/-! ### What a run keeps -/

/-- A move leaves the options as they are. -/
theorem Step.startingAfter_eq (h : reader.Step exchanges move left) (key : Item) :
    left.startingAfter key = reader.startingAfter key := by
  cases h with
  | exhausted _ | conflict _ _ | yielded _ _ | ended _ _ _ => rfl
  | loaded hturns _ | failed hturns _ =>
      obtain ⟨budget, rfl⟩ := hturns.eq
      rfl

/-- What a reader goes on with stays the same while it runs. -/
theorem Steps.startingAfter_eq (h : Steps reader events left) (key : Item) :
    left.startingAfter key = reader.startingAfter key := by
  induction h with
  | refl reader => rfl
  | step hstep _ ih => rw [ih, hstep.startingAfter_eq]

/-- The last key is that of the page that came last, if any came. -/
theorem Step.last_eq (h : reader.Step exchanges move left) :
    left.last =
      ((pagesRead (Pull.events ⟨exchanges, move⟩)).getLast?.map Page.last).getD reader.last := by
  cases h with
  | exhausted _ | conflict _ _ | yielded _ _ | ended _ _ _ => rfl
  | loaded hturns page => simp [Pull.events, Move.events, afterPage]
  | failed hturns fault =>
      obtain ⟨budget, rfl⟩ := hturns.eq
      simp [Pull.events, Move.events, exhaust]

/-- The token is that of the last page, also after the end and after a failure. -/
theorem Steps.last_eq (h : Steps reader events left) :
    left.last = ((pagesRead events).getLast?.map Page.last).getD reader.last := by
  induction h with
  | refl reader => rfl
  | @step reader middle left exchanges move events hstep _ ih =>
      rw [ih, hstep.last_eq, pagesRead_append, List.getLast?_append]
      cases (pagesRead events).getLast? <;> rfl

/-! ### After the end -/

/-- A reader that is exhausted announces the end and nothing else, however often. -/
theorem Steps.eq_of_exhausted (h : Steps reader events left) (hphase : reader.phase = .exhausted) :
    left = reader ∧ ∃ count, events = List.replicate count .ended := by
  induction h with
  | refl reader => exact ⟨rfl, 0, rfl⟩
  | step hstep _ ih =>
      obtain ⟨rfl, rfl, rfl⟩ := hstep.eq_of_exhausted hphase
      obtain ⟨rfl, count, rfl⟩ := ih hphase
      exact ⟨rfl, count + 1, rfl⟩

/-- It can do so any number of times. -/
theorem steps_exhausted (hphase : reader.phase = .exhausted) (count : Nat) :
    Steps reader (List.replicate count .ended) reader := by
  induction count with
  | zero => exact .refl reader
  | succ count ih => exact .step (.exhausted hphase) ih

/-! ### Cutting runs -/

/-- Something is seen of every move. -/
theorem Step.events_ne_nil (h : reader.Step exchanges move left) :
    Pull.events ⟨exchanges, move⟩ ≠ [] := by
  cases h <;> simp [Pull.events, Move.events]

/-- A move that does not announce the end does not announce it in its exchanges either. -/
theorem not_mem_events_of_ne (hmove : move ≠ .ended) :
    Event.ended ∉ Pull.events ⟨exchanges, move⟩ := by
  cases move <;> simp_all [Pull.events, Move.events]

/-- A move is determined by the exchanges that the store serves. -/
theorem Step.unique {store : Store σ} {state later later' : σ} {exchanges' : List Exchange}
    {move' : Move} {left' : Reader} (h : reader.Step exchanges move left)
    (hserves : store.Serves state exchanges later) (h' : reader.Step exchanges' move' left')
    (hserves' : store.Serves state exchanges' later') :
    exchanges' = exchanges ∧ move' = move ∧ left' = left ∧ later' = later := by
  have hlog := step_eq_of_serves h (hserves.logging [])
  rw [step_eq_of_serves h' (hserves'.logging []), List.nil_append, List.nil_append] at hlog
  cases hlog
  exact ⟨rfl, rfl, rfl, rfl⟩

/-- **A run is determined by its answers.**  After what it has shown already, it goes on
from where it was then. -/
theorem Steps.cancel {store : Store σ} {state later : σ} {before : List Event}
    (hall : Steps reader (before ++ events) left)
    (hserves : store.Serves state (Event.exchanges (before ++ events)) later)
    (hbefore : Steps reader before middle) : Steps middle events left := by
  induction hbefore generalizing state with
  | refl reader => exact hall
  | @step reader next middle exchanges move before hstep hrest ih =>
      rw [List.append_assoc] at hall hserves
      generalize hevents : Pull.events ⟨exchanges, move⟩ ++ (before ++ events) = all at hall
      have hserves' : store.Serves state (Event.exchanges all) later := hevents ▸ hserves
      rw [exchanges_append, exchanges_events] at hserves
      obtain ⟨between, hfirst, hmore⟩ := Store.serves_append.mp hserves
      cases hall with
      | refl => exact absurd (List.append_eq_nil_iff.mp hevents).1 hstep.events_ne_nil
      | step hstep' hrest' =>
          rw [exchanges_append, exchanges_events] at hserves'
          obtain ⟨_, hfirst', _⟩ := Store.serves_append.mp hserves'
          obtain ⟨rfl, rfl, rfl, -⟩ := hstep.unique hfirst hstep' hfirst'
          rw [← List.append_cancel_left hevents] at hrest'
          exact ih hrest' hmore

/-- A run in which the end is announced, up to there. -/
theorem Steps.split_ended (h : Steps reader events left) (hended : .ended ∈ events) :
    ∃ before middle count, events = before ++ List.replicate (count + 1) .ended ∧
      .ended ∉ before ∧ Steps reader before middle ∧ middle.Step [] .ended left := by
  induction h with
  | refl reader => exact absurd hended List.not_mem_nil
  | @step reader middle left exchanges move events hstep hrest ih =>
      by_cases hmove : move = .ended
      · subst hmove
        obtain rfl := hstep.exchanges_of_ended
        obtain ⟨rfl, count, rfl⟩ := hrest.eq_of_exhausted hstep.exhausted_of_ended
        exact ⟨[], reader, count, rfl, List.not_mem_nil, .refl reader, hstep⟩
      · rcases List.mem_append.mp hended with hmem | hmem
        · exact absurd hmem (not_mem_events_of_ne hmove)
        · obtain ⟨before, last, count, rfl, hopen, hbefore, hend⟩ := ih hmem
          refine ⟨Pull.events ⟨exchanges, move⟩ ++ before, last, count,
            (List.append_assoc _ _ _).symm, ?_, .step hstep hbefore, hend⟩
          rw [List.mem_append, not_or]
          exact ⟨not_mem_events_of_ne hmove, hopen⟩

/-- A run that finishes with its first announcement of the end, up to there. -/
theorem Steps.split_last (h : Steps reader (events ++ [.ended]) left) (hopen : .ended ∉ events) :
    ∃ middle, Steps reader events middle ∧ middle.Step [] .ended left := by
  obtain ⟨before, middle, count, hevents, -, hbefore, hend⟩ :=
    h.split_ended (List.mem_append_right _ (List.mem_singleton_self _))
  rw [List.replicate_succ', ← List.append_assoc] at hevents
  have hcut : events = before ++ List.replicate count .ended := List.append_cancel_right hevents
  cases count with
  | zero =>
      rw [List.replicate_zero, List.append_nil] at hcut
      subst hcut
      exact ⟨middle, hbefore, hend⟩
  | succ count =>
      rw [hcut] at hopen
      exact absurd (List.mem_append_right _ (List.mem_replicate.mpr ⟨Nat.succ_ne_zero _, rfl⟩)) hopen

/-- A run in which a page fails, up to there. -/
theorem Steps.split_fault {fault : Fault} (h : Steps reader events left)
    (hfault : .error fault ∈ answers events) :
    ∃ before middle bound count, Steps reader before middle ∧ middle.Turns bound ∧
      left = bound.exhaust ∧ events = before ++
        .asked (bound.pageRequest.exchange (.error fault)) :: .yielded (.error fault) ::
          List.replicate count .ended := by
  induction h with
  | refl reader => exact absurd hfault List.not_mem_nil
  | @step reader middle left exchanges move events hstep hrest ih =>
      rw [answers_append, List.mem_append] at hfault
      rcases hfault with hhere | hlater
      · rw [answers, exchanges_events] at hhere
        cases hstep with
        | exhausted | conflict | yielded | ended => exact absurd hhere List.not_mem_nil
        | loaded hturns page =>
            simp [PageRequest.page?_exchange] at hhere
        | @failed bound hturns fault' =>
            obtain rfl : fault = fault' := by simpa [PageRequest.page?_exchange] using hhere
            obtain ⟨rfl, count, rfl⟩ := hrest.eq_of_exhausted rfl
            exact ⟨[], reader, bound, count, .refl reader, hturns, rfl, rfl⟩
      · obtain ⟨before, last, bound, count, hbefore, hturns, rfl, rfl⟩ := ih hlater
        exact ⟨Pull.events ⟨exchanges, move⟩ ++ before, last, bound, count,
          .step hstep hbefore, hturns, rfl, (List.append_assoc _ _ _).symm⟩

end Reader

end KeywordTable
