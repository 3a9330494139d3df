import KeywordTable.Reader.Moves
import Mathlib.Data.List.Basic

/-!
# What a reader can do

An **exchange** is a call together with its answer.  `Store.logging` keeps all
exchanges beside the state of a store, and keeping them changes nothing.
`Store.Serves` says which exchanges a store makes on the way from one state to
another.

Everything a move can do is said once, in `Reader.Step`: which pages it asks for,
what comes of it and which reader is left, for any answer a store might give.
`Reader.Next` puts moves together until one of them is more than the turn of a page.
`step_logging` and `next_logging` tie both to the functions that run, and
`step_eq_of_serves` goes back: a move that is possible is made by every store that
serves its exchanges.  Every law of paged reading is proved from them by induction and
never opens these functions again.
-/

namespace KeywordTable

variable {σ α β : Type}

/-- A run goes on with the state that the first part leaves. -/
theorem bind_apply (run : StateM σ α) (next : α → StateM σ β) (state : σ) :
    (run >>= next) state = next (run state).1 (run state).2 := rfl

/-- The second part of a run starts where the first left the store, unless that
failed. -/
theorem Run.attempt_bind (run : Run σ α) (next : α → Run σ β) (state : σ) :
    (run >>= next).attempt state =
      match run.attempt state with
      | (.ok x, state) => (next x).attempt state
      | (.error fault, state) => (.error fault, state) := by
  show (ExceptT.bindCont next (run.attempt state).1) (run.attempt state).2 = _
  rcases run.attempt state with ⟨answer, state⟩
  cases answer <;> rfl

/-! ### Exchanges -/

/-- A call with the answer it got. -/
structure Exchange where
  call : Call
  answer : Except Fault call.Reply
deriving DecidableEq

/-- The store that also keeps every exchange, oldest first. -/
def Store.logging (store : Store σ) : Store (σ × List Exchange) where
  answer call := fun (state, log) =>
    let (answer, state) := store.answer call state
    (answer, state, log ++ [⟨call, answer⟩])

/-- The store makes these exchanges, one after the other, between two states. -/
inductive Store.Serves (store : Store σ) : σ → List Exchange → σ → Prop
  | nil (state : σ) : Serves store state [] state
  | cons {state middle later : σ} {call : Call} {answer : Except Fault call.Reply}
      {rest : List Exchange} (hanswer : (store.answer call).attempt state = (answer, middle))
      (hrest : Serves store middle rest later) :
      Serves store state (⟨call, answer⟩ :: rest) later

/-- What a store serves in two parts of a conversation. -/
theorem Store.serves_append {store : Store σ} {state later : σ} {exchanges more : List Exchange} :
    store.Serves state (exchanges ++ more) later ↔
      ∃ middle, store.Serves state exchanges middle ∧ store.Serves middle more later := by
  induction exchanges generalizing state with
  | nil =>
      constructor
      · exact fun h => ⟨state, .nil state, h⟩
      · rintro ⟨middle, hnone, hmore⟩
        cases hnone
        exact hmore
  | cons exchange exchanges ih =>
      constructor
      · rintro (_ | ⟨hanswer, hrest⟩)
        obtain ⟨middle, hfirst, hmore⟩ := ih.mp hrest
        exact ⟨middle, .cons hanswer hfirst, hmore⟩
      · rintro ⟨middle, _ | ⟨hanswer, hrest⟩, hmore⟩
        exact .cons hanswer (ih.mpr ⟨middle, hrest, hmore⟩)

/-- The store that keeps its exchanges serves the same ones. -/
theorem Store.Serves.logging {store : Store σ} {state later : σ} {exchanges : List Exchange}
    (h : store.Serves state exchanges later) (log : List Exchange) :
    store.logging.Serves (state, log) exchanges (later, log ++ exchanges) := by
  induction h generalizing log with
  | nil state =>
      rw [List.append_nil]
      exact .nil (state, log)
  | @cons state middle later call answer rest hanswer hrest ih =>
      have hlogged : (store.logging.answer call).attempt (state, log) =
          (answer, middle, log ++ [⟨call, answer⟩]) := by
        rw [Run.attempt] at hanswer
        simp only [Store.logging, Run.attempt, hanswer]
      have hmore := ih (log ++ [⟨call, answer⟩])
      rw [List.append_assoc] at hmore
      exact .cons hlogged hmore

/-- The exchange in which the request for a page gets this answer. -/
def PageRequest.exchange (request : PageRequest) (answer : Except Fault Page) : Exchange :=
  match request.access with
  | .query keyCondition forward =>
    let (expression, read) := queryExpressions keyCondition request.read
    ⟨.query expression forward read, answer⟩
  | .scan => ⟨.scan (request.read.toCall {}), answer⟩

/-- The answer, if the call was for a page. -/
def Exchange.page? : Exchange → Option (Except Fault Page)
  | ⟨.query _ _ _, answer⟩ => some answer
  | ⟨.scan _, answer⟩ => some answer
  | _ => none

/-- A page is asked for by the call of its request. -/
theorem PageRequest.call_exchange (request : PageRequest) (answer : Except Fault Page) :
    (request.exchange answer).call = request.toCall := by
  obtain ⟨access, read⟩ := request
  cases access <;> rfl

/-- The exchange for a page tells how the page was answered. -/
theorem PageRequest.page?_exchange (request : PageRequest) (answer : Except Fault Page) :
    (request.exchange answer).page? = some answer := by
  obtain ⟨access, read⟩ := request
  cases access <;> rfl

/-- A store serves the request for a page by answering it. -/
theorem PageRequest.serves_exchange {request : PageRequest} {store : Store σ}
    {state later : σ} {answer : Except Fault Page} :
    store.Serves state [request.exchange answer] later ↔
      (request.send store).attempt state = (answer, later) := by
  obtain ⟨access, read⟩ := request
  cases access with
  | query keyCondition forward | scan =>
      constructor
      · rintro (_ | ⟨hanswer, _ | _⟩)
        exact hanswer
      · exact fun h => .cons h (.nil later)

/-- Sending the request for a page makes one exchange. -/
theorem PageRequest.send_logging (request : PageRequest) (store : Store σ) (state : σ)
    (log : List Exchange) :
    (request.send store.logging).attempt (state, log) =
      (((request.send store).attempt state).1, ((request.send store).attempt state).2,
        log ++ [request.exchange ((request.send store).attempt state).1]) := by
  obtain ⟨access, read⟩ := request
  cases access <;> rfl

namespace Reader

/-! ### One move -/

/-- The reader that has read nothing any more. -/
def exhaust (reader : Reader) : Reader := { reader with phase := .exhausted, buffer := [] }

/-- The reader turns a page in this move, with these options fixed. -/
inductive Turns (reader : Reader) : Reader → Prop
  | first {bound : Reader} (hphase : reader.phase = .configuring)
      (hbind : reader.bindOptions = .ok bound) : Turns reader bound
  | further (hphase : reader.phase = .bound) (hbuffer : reader.buffer = [])
      (hmore : reader.hasNextPage) : Turns reader reader

/-- What one move can do: the exchanges it makes, what comes of it, and the reader
that is left. -/
inductive Step (reader : Reader) : List Exchange → Move → Reader → Prop
  | exhausted (hphase : reader.phase = .exhausted) : Step reader [] .ended reader
  | conflict {fault : Fault} (hphase : reader.phase = .configuring)
      (hbind : reader.bindOptions = .error fault) :
      Step reader [] (.yielded (.error fault)) reader.exhaust
  | loaded {bound : Reader} (hturns : reader.Turns bound) (page : Page) :
      Step reader [bound.pageRequest.exchange (.ok page)] .turned
        { bound.afterPage page with buffer := bound.buffer ++ page.items }
  | failed {bound : Reader} (hturns : reader.Turns bound) (fault : Fault) :
      Step reader [bound.pageRequest.exchange (.error fault)] (.yielded (.error fault))
        bound.exhaust
  | yielded {raw : Item} {rest : List Item} (hphase : reader.phase = .bound)
      (hbuffer : reader.buffer = raw :: rest) :
      Step reader [] (.yielded (reader.validator.check raw reader.yieldsIncomplete))
        { reader with buffer := rest }
  | ended (hphase : reader.phase = .bound) (hbuffer : reader.buffer = [])
      (hlast : ¬ reader.hasNextPage) : Step reader [] .ended { reader with phase := .exhausted }

/-- What the answer to the request for a page leads to. -/
def afterAnswer (reader : Reader) : Except Fault Page → Move × Reader
  | .ok page => (.turned, { reader.afterPage page with buffer := reader.buffer ++ page.items })
  | .error fault => (.yielded (.error fault), reader.exhaust)

/-- Turning the page asks the store for the page that the reader needs and takes in the
answer. -/
theorem turnPage_eq (reader : Reader) (store : Store σ) (state : σ) :
    reader.turnPage store state =
      (reader.afterAnswer ((reader.pageRequest.send store).attempt state).1,
        ((reader.pageRequest.send store).attempt state).2) := by
  unfold turnPage loadPage fetch
  rw [bind_apply, Run.attempt_bind, Run.attempt_bind]
  rcases (reader.pageRequest.send store).attempt state with ⟨answer, state⟩
  cases answer <;> rfl

/-- The move of a reader that needs a page is to turn it. -/
theorem step_of_turns {reader bound : Reader} (hturns : reader.Turns bound) (store : Store σ) :
    reader.step store = bound.turnPage store := by
  cases hturns with
  | first hphase hbind => simp [step, hphase, hbind]
  | further hphase hbuffer hmore => simp [step, hphase, hbuffer, hmore]

/-- A move that turns the page. -/
theorem step_logging_of_turns {reader bound : Reader} (hturns : reader.Turns bound)
    (store : Store σ) (state : σ) (log : List Exchange) :
    ∃ exchanges, reader.step store.logging (state, log) =
        ((reader.step store state).1, (reader.step store state).2, log ++ exchanges) ∧
      store.Serves state exchanges (reader.step store state).2 ∧
      reader.Step exchanges (reader.step store state).1.1 (reader.step store state).1.2 := by
  have hsend := bound.pageRequest.send_logging store state log
  have hserves : store.Serves state
      [bound.pageRequest.exchange ((bound.pageRequest.send store).attempt state).1]
      ((bound.pageRequest.send store).attempt state).2 := PageRequest.serves_exchange.mpr rfl
  rw [step_of_turns hturns, step_of_turns hturns, turnPage_eq, turnPage_eq, hsend]
  revert hserves
  rcases (bound.pageRequest.send store).attempt state with ⟨answer, state'⟩
  intro hserves
  cases answer with
  | ok page => exact ⟨_, rfl, hserves, .loaded hturns page⟩
  | error fault => exact ⟨_, rfl, hserves, .failed hturns fault⟩

/-- A move that does not talk to the store. -/
theorem step_logging_of_silent {reader left : Reader} {move : Move}
    (hsilent : ∀ {τ : Type} (store : Store τ), reader.step store = pure (move, left))
    (hstep : reader.Step [] move left) (store : Store σ) (state : σ) (log : List Exchange) :
    ∃ exchanges, reader.step store.logging (state, log) =
        ((reader.step store state).1, (reader.step store state).2, log ++ exchanges) ∧
      store.Serves state exchanges (reader.step store state).2 ∧
      reader.Step exchanges (reader.step store state).1.1 (reader.step store state).1.2 := by
  refine ⟨[], ?_, ?_, ?_⟩
  · rw [hsilent, hsilent, List.append_nil]
    rfl
  · rw [hsilent]
    exact .nil state
  · rw [hsilent]
    exact hstep

/-- **What a move does.**  Logging the exchanges changes nothing, the store serves them,
and they are those that the move is said to make. -/
theorem step_logging (reader : Reader) (store : Store σ) (state : σ) (log : List Exchange) :
    ∃ exchanges, reader.step store.logging (state, log) =
        ((reader.step store state).1, (reader.step store state).2, log ++ exchanges) ∧
      store.Serves state exchanges (reader.step store state).2 ∧
      reader.Step exchanges (reader.step store state).1.1 (reader.step store state).1.2 := by
  cases hphase : reader.phase with
  | exhausted =>
      exact step_logging_of_silent (fun _ => by simp [step, hphase]) (.exhausted hphase) _ _ _
  | configuring =>
      cases hbind : reader.bindOptions with
      | error fault =>
          exact step_logging_of_silent (fun _ => by simp [step, hphase, hbind, fail, exhaust])
            (.conflict hphase hbind) _ _ _
      | ok bound => exact step_logging_of_turns (.first hphase hbind) _ _ _
  | bound =>
      cases hbuffer : reader.buffer with
      | cons raw rest =>
          exact step_logging_of_silent (fun _ => by simp [step, hphase, hbuffer])
            (.yielded hphase hbuffer) _ _ _
      | nil =>
          by_cases hmore : reader.hasNextPage
          · exact step_logging_of_turns (.further hphase hbuffer hmore) _ _ _
          · exact step_logging_of_silent (fun _ => by simp [step, hphase, hbuffer, hmore])
              (.ended hphase hbuffer hmore) _ _ _

/-- **A move that is possible is made** by a store that serves its exchanges. -/
theorem step_eq_of_serves {reader left : Reader} {exchanges : List Exchange} {move : Move}
    {store : Store σ} {state later : σ} (hstep : reader.Step exchanges move left)
    (hserves : store.Serves state exchanges later) :
    reader.step store state = ((move, left), later) := by
  cases hstep with
  | exhausted hphase =>
      cases hserves
      simp only [step, hphase]
      rfl
  | conflict hphase hbind =>
      cases hserves
      simp only [step, hphase, hbind]
      rfl
  | loaded hturns page =>
      rw [step_of_turns hturns, turnPage_eq, PageRequest.serves_exchange.mp hserves]
      rfl
  | failed hturns fault =>
      rw [step_of_turns hturns, turnPage_eq, PageRequest.serves_exchange.mp hserves]
      rfl
  | yielded hphase hbuffer =>
      cases hserves
      simp only [step, hphase, hbuffer]
      rfl
  | ended hphase hbuffer hlast =>
      cases hserves
      simp only [step, hphase, hbuffer, hlast]
      rfl

/-! ### Up to the next item -/

/-- What one call for the next item can do in a given number of moves. -/
inductive Next : Nat → Reader → List Exchange → Move → Reader → Prop
  | waiting (reader : Reader) : Next 0 reader [] .turned reader
  | turned {moves : Nat} {reader middle left : Reader} {exchanges more : List Exchange}
      {move : Move} (hstep : reader.Step exchanges .turned middle)
      (hnext : Next moves middle more move left) :
      Next (moves + 1) reader (exchanges ++ more) move left
  | done {moves : Nat} {reader left : Reader} {exchanges : List Exchange} {move : Move}
      (hstep : reader.Step exchanges move left) (hmove : move ≠ .turned) :
      Next (moves + 1) reader exchanges move left

/-- **What a call does.** -/
theorem next_logging (store : Store σ) (moves : Nat) (reader : Reader) (state : σ)
    (log : List Exchange) :
    ∃ exchanges, reader.next store.logging moves (state, log) =
        ((reader.next store moves state).1, (reader.next store moves state).2,
          log ++ exchanges) ∧
      store.Serves state exchanges (reader.next store moves state).2 ∧
      Next moves reader exchanges (reader.next store moves state).1.1
        (reader.next store moves state).1.2 := by
  induction moves generalizing reader state log with
  | zero => exact ⟨[], by rw [List.append_nil]; rfl, .nil state, .waiting reader⟩
  | succ moves ih =>
      obtain ⟨exchanges, hlog, hserves, hstep⟩ := step_logging reader store state log
      simp only [next, bind_apply, hlog]
      revert hserves hstep
      rcases reader.step store state with ⟨⟨move, middle⟩, state'⟩
      intro hserves hstep
      cases move with
      | turned =>
          obtain ⟨more, hmore, hserves', hcall⟩ := ih middle state' (log ++ exchanges)
          refine ⟨exchanges ++ more, ?_, Store.serves_append.mpr ⟨state', hserves, hserves'⟩,
            .turned hstep hcall⟩
          rw [← List.append_assoc]
          exact hmore
      | yielded result => exact ⟨exchanges, rfl, hserves, .done hstep nofun⟩
      | ended => exact ⟨exchanges, rfl, hserves, .done hstep nofun⟩

section Finish

variable {reader left : Reader} {exchanges : List Exchange} {move : Move}

/-! ### Which move it is

The state of a reader decides on its move, up to the answer of the store. -/

/-- A reader that is exhausted announces the end and sends nothing. -/
theorem Step.eq_of_exhausted (h : reader.Step exchanges move left)
    (hphase : reader.phase = .exhausted) : exchanges = [] ∧ move = .ended ∧ left = reader := by
  cases h with
  | exhausted _ => exact ⟨rfl, rfl, rfl⟩
  | conflict hphase' _ | yielded hphase' _ | ended hphase' _ _ =>
      rw [hphase] at hphase'
      cases hphase'
  | loaded hturns _ | failed hturns _ =>
      cases hturns with
      | first hphase' _ | further hphase' _ _ =>
          rw [hphase] at hphase'
          cases hphase'

/-- A reader that turns the page does what the answer tells it to. -/
theorem Step.eq_of_turns {bound : Reader} (h : reader.Step exchanges move left)
    (hturns : reader.Turns bound) :
    ∃ answer, exchanges = [bound.pageRequest.exchange answer] ∧
      (move, left) = bound.afterAnswer answer := by
  have hbound : ∀ {other}, reader.Turns other → other = bound := by
    intro other hother
    cases hturns with
    | first hphase hbind => cases hother <;> simp_all
    | further hphase _ _ => cases hother <;> simp_all
  cases h with
  | loaded hturns' page =>
      obtain rfl := hbound hturns'
      exact ⟨.ok page, rfl, rfl⟩
  | failed hturns' fault =>
      obtain rfl := hbound hturns'
      exact ⟨.error fault, rfl, rfl⟩
  | exhausted hphase | conflict hphase hbind | yielded hphase hbuffer | ended hphase hbuffer hlast =>
      cases hturns <;> simp_all

/-- Fixing the options changes nothing but the phase and the budget. -/
theorem Turns.eq {bound : Reader} (hturns : reader.Turns bound) :
    ∃ budget, bound = { reader with phase := .bound, budget } := by
  cases hturns with
  | first hphase hbind =>
      simp only [bindOptions] at hbind
      by_cases hconflict : (reader.recursive && reader.request.read.limit.isSome &&
          !reader.acrossPages) = true
      · rw [if_pos hconflict] at hbind
        cases hbind
      · rw [if_neg hconflict] at hbind
        exact ⟨_, (Except.ok.inj hbind).symm⟩
  | further hphase _ _ => exact ⟨reader.budget, by rw [← hphase]⟩

/-- A reader that turns the page is bound. -/
theorem Turns.phase_eq {bound : Reader} (hturns : reader.Turns bound) : bound.phase = .bound := by
  obtain ⟨budget, rfl⟩ := hturns.eq
  rfl

/-- The reader turns the page whatever the answer is. -/
theorem Turns.step {bound : Reader} (hturns : reader.Turns bound) (answer : Except Fault Page) :
    reader.Step [bound.pageRequest.exchange answer] (bound.afterAnswer answer).1
      (bound.afterAnswer answer).2 := by
  cases answer with
  | ok page => exact .loaded hturns page
  | error fault => exact .failed hturns fault

/-- A reader that has something in its buffer yields it. -/
theorem Step.eq_of_buffer {raw : Item} {rest : List Item} (h : reader.Step exchanges move left)
    (hphase : reader.phase = .bound) (hbuffer : reader.buffer = raw :: rest) :
    exchanges = [] ∧ move = .yielded (reader.validator.check raw reader.yieldsIncomplete) ∧
      left = { reader with buffer := rest } := by
  cases h with
  | loaded hturns _ | failed hturns _ => cases hturns <;> simp_all
  | exhausted _ | conflict _ _ | ended _ _ _ => simp_all
  | yielded _ hbuffer' => simp_all

/-- A reader with nothing left in its buffer ends on the last page. -/
theorem Step.eq_of_last (h : reader.Step exchanges move left) (hphase : reader.phase = .bound)
    (hbuffer : reader.buffer = []) (hlast : ¬ reader.hasNextPage) :
    exchanges = [] ∧ move = .ended ∧ left = { reader with phase := .exhausted } := by
  cases h with
  | loaded hturns _ | failed hturns _ => cases hturns <;> simp_all
  | exhausted _ | conflict _ _ | yielded _ _ => simp_all
  | ended _ _ _ => exact ⟨rfl, rfl, rfl⟩

/-- A move that announces the end asks for nothing. -/
theorem Step.exchanges_of_ended (h : reader.Step exchanges .ended left) : exchanges = [] := by
  cases h with
  | exhausted _ | ended _ _ _ => rfl

/-! ### How calls finish -/

/-- After the end was announced, the reader is exhausted. -/
theorem Step.exhausted_of_ended (h : reader.Step exchanges .ended left) :
    left.phase = .exhausted := by
  cases h with
  | exhausted hphase => exact hphase
  | ended hphase hbuffer hlast => rfl

/-- A page that fails is the last thing that is tried. -/
theorem Step.failed_of_mem {exchange : Exchange} {fault : Fault}
    (h : reader.Step exchanges move left) (hmem : exchange ∈ exchanges)
    (hfault : exchange.page? = some (.error fault)) :
    move = .yielded (.error fault) ∧ left.phase = .exhausted := by
  cases h with
  | exhausted | conflict | yielded | ended => exact absurd hmem List.not_mem_nil
  | loaded hturns page =>
      rw [List.mem_singleton.mp hmem, PageRequest.page?_exchange] at hfault
      cases hfault
  | failed hturns fault' =>
      rw [List.mem_singleton.mp hmem, PageRequest.page?_exchange] at hfault
      cases hfault
      exact ⟨rfl, rfl⟩

/-- After a call that announces the end, the reader is exhausted. -/
theorem Next.exhausted_of_ended {moves : Nat} (h : Next moves reader exchanges .ended left) :
    left.phase = .exhausted := by
  generalize hmove : Move.ended = move at h
  induction h with
  | waiting => cases hmove
  | turned hstep hnext ih => exact ih hmove
  | done hstep _ =>
      subst hmove
      exact hstep.exhausted_of_ended

/-- A page that fails is the last thing that a call does. -/
theorem Next.failed_of_mem {moves : Nat} {exchange : Exchange} {fault : Fault}
    (h : Next moves reader exchanges move left) (hmem : exchange ∈ exchanges)
    (hfault : exchange.page? = some (.error fault)) :
    move = .yielded (.error fault) ∧ left.phase = .exhausted := by
  induction h with
  | waiting => exact absurd hmem List.not_mem_nil
  | turned hstep hnext ih =>
      rcases List.mem_append.mp hmem with hmem | hmem
      · cases (hstep.failed_of_mem hmem hfault).1
      · exact ih hmem
  | done hstep _ => exact hstep.failed_of_mem hmem hfault

/-- A reader that is exhausted announces the end again and stays as it is. -/
theorem Next.eq_of_exhausted {moves : Nat} (h : Next (moves + 1) reader exchanges move left)
    (hphase : reader.phase = .exhausted) : exchanges = [] ∧ move = .ended ∧ left = reader := by
  cases h with
  | turned hturn _ => cases (hturn.eq_of_exhausted hphase).2.1
  | done hdone _ => exact hdone.eq_of_exhausted hphase

/-- A call that does not finish spends all its moves on pages. -/
theorem Next.length_of_turned {moves : Nat} (h : Next moves reader exchanges .turned left) :
    exchanges.length = moves := by
  generalize hmove : Move.turned = move at h
  induction h with
  | waiting => rfl
  | turned hstep hnext ih =>
      cases hstep with
      | loaded hturns page =>
          rw [List.length_append, List.length_singleton, ih hmove, Nat.add_comm]
  | done hstep hother => exact absurd hmove.symm hother

/-! ### One call after the other -/

/-- One call for the next item: the exchanges that it made, and what came of it. -/
structure Pull where
  exchanges : List Exchange
  outcome : Move

/-- Ask for one item after the other; each call may take one move more than said.  The
log is used for nothing but to tell which exchanges a call made. -/
def pulls (store : Store σ) : List Nat → Reader → StateM σ (List Pull × Reader)
  | [], reader => return ([], reader)
  | moves :: calls, reader => fun state =>
    let exchanges := (reader.next store.logging (moves + 1) (state, [])).2.2
    let ((outcome, reader), state) := reader.next store (moves + 1) state
    let ((pulls, reader), state) := pulls store calls reader state
    ((⟨exchanges, outcome⟩ :: pulls, reader), state)

/-- What calls one after the other can do. -/
inductive Pulls : List Nat → Reader → List Pull → Reader → Prop
  | nil (reader : Reader) : Pulls [] reader [] reader
  | cons {moves : Nat} {calls : List Nat} {reader middle left : Reader}
      {exchanges : List Exchange} {outcome : Move} {pulls : List Pull}
      (hnext : Next (moves + 1) reader exchanges outcome middle)
      (hrest : Pulls calls middle pulls left) :
      Pulls (moves :: calls) reader (⟨exchanges, outcome⟩ :: pulls) left

/-- What a reader does when it is called again and again. -/
theorem pulls_pulls (store : Store σ) (calls : List Nat) (reader : Reader) (state : σ) :
    Pulls calls reader (reader.pulls store calls state).1.1
      (reader.pulls store calls state).1.2 := by
  induction calls generalizing reader state with
  | nil => exact .nil reader
  | cons moves calls ih =>
      obtain ⟨exchanges, hlog, _, hnext⟩ := next_logging store (moves + 1) reader state []
      have hexchanges : (reader.next store.logging (moves + 1) (state, [])).2.2 = exchanges := by
        rw [hlog, List.nil_append]
      rw [← hexchanges] at hnext
      exact .cons hnext (ih _ _)

/-- A reader that is exhausted answers every call with the end, and sends nothing. -/
theorem Pulls.eq_of_exhausted {calls : List Nat} {pulls : List Pull}
    (h : Pulls calls reader pulls left) (hphase : reader.phase = .exhausted) :
    ∀ pull ∈ pulls, pull = ⟨[], .ended⟩ := by
  induction h with
  | nil => exact fun _ hmem => absurd hmem List.not_mem_nil
  | cons hnext hrest ih =>
      obtain ⟨rfl, rfl, rfl⟩ := hnext.eq_of_exhausted hphase
      intro pull hmem
      rcases List.mem_cons.mp hmem with rfl | hmem
      · rfl
      · exact ih hphase pull hmem

/-- A call that does not finish spends all its moves on pages. -/
theorem Pulls.one_each {calls : List Nat} {pulls : List Pull}
    (h : Pulls calls reader pulls left) :
    List.Forall₂ (fun moves pull => pull.outcome = .turned → pull.exchanges.length = moves + 1)
      calls pulls := by
  induction h with
  | nil => exact .nil
  | cons hnext hrest ih =>
      refine .cons (fun hturned => ?_) ih
      subst hturned
      exact hnext.length_of_turned

/-- One of the calls, and those that come after it. -/
theorem Pulls.split {calls : List Nat} {front back : List Pull} {pull : Pull}
    (h : Pulls calls reader (front ++ pull :: back) left) :
    ∃ (moves : Nat) (later : List Nat) (before after : Reader),
      Next (moves + 1) before pull.exchanges pull.outcome after ∧ Pulls later after back left := by
  induction front generalizing calls reader with
  | nil =>
      cases h with
      | cons hnext hrest => exact ⟨_, _, _, _, hnext, hrest⟩
  | cons first front ih =>
      cases h with
      | cons hnext hrest => exact ih hrest

end Finish

end Reader

end KeywordTable
