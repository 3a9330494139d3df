import KeywordTable.Batch
import KeywordTable.Reader.Moves
import Mathlib.Data.List.Basic

/-!
# What is sent

`SendsOnly P` says of a run against a recording store that every call it sends has
the property `P`, **whatever** the store answers and whatever was sent before.  The
law is closed under everything runs are made of, so a loop that sends only such
calls in one round sends only such calls in all of them.
-/

namespace KeywordTable

variable {σ α β : Type} {P : Call → Prop}

/-- Every call that is sent has the property. -/
def SendsOnly (P : Call → Prop) (run : StateM (σ × List Call) α) : Prop :=
  ∀ (state : σ) (calls : List Call), ∃ sent, (run (state, calls)).2.2 = calls ++ sent ∧
    ∀ call ∈ sent, P call

/-! ### How runs are made -/

/-- What sends nothing sends nothing else. -/
theorem sendsOnly_pure (x : α) : SendsOnly P (pure x : StateM (σ × List Call) α) :=
  fun _ calls => ⟨[], (List.append_nil calls).symm, fun _ hcall => absurd hcall List.not_mem_nil⟩

/-- A run that goes on after another sends what the two of them send. -/
theorem sendsOnly_bind {run : StateM (σ × List Call) α} {next : α → StateM (σ × List Call) β}
    (hrun : SendsOnly P run) (hnext : ∀ x, SendsOnly P (next x)) : SendsOnly P (run >>= next) := by
  intro state calls
  obtain ⟨sent, hsent, hall⟩ := hrun state calls
  obtain ⟨more, hmore, hall'⟩ := hnext (run (state, calls)).1 (run (state, calls)).2.1
    (run (state, calls)).2.2
  refine ⟨sent ++ more, ?_, ?_⟩
  · rw [← List.append_assoc, ← hsent, ← hmore]
    rfl
  · intro call hcall
    rcases List.mem_append.mp hcall with hcall | hcall
    · exact hall call hcall
    · exact hall' call hcall

/-- A run that may fail sends nothing after the fault. -/
theorem sendsOnly_run_bind {run : Run (σ × List Call) α} {next : α → Run (σ × List Call) β}
    (hrun : SendsOnly P run.attempt) (hnext : ∀ x, SendsOnly P (next x).attempt) :
    SendsOnly P (run >>= next).attempt := by
  show SendsOnly P (run.attempt >>= ExceptT.bindCont next)
  refine sendsOnly_bind hrun fun result => ?_
  cases result with
  | ok x => exact hnext x
  | error fault => exact sendsOnly_pure _

theorem sendsOnly_run_pure (x : α) : SendsOnly P (pure x : Run (σ × List Call) α).attempt :=
  sendsOnly_pure _

/-- A store that is asked for one answer is sent this call. -/
theorem sendsOnly_answer (store : Store σ) {call : Call} (h : P call) :
    SendsOnly P (store.recording.answer call).attempt := by
  intro state calls
  refine ⟨[call], rfl, fun sent hsent => ?_⟩
  rw [List.mem_singleton.mp hsent]
  exact h

/-! ### Requests -/

variable (store : Store σ)

theorem GetItem.sendsOnly (request : GetItem) (h : P request.toCall) :
    SendsOnly P (request.send store.recording).attempt :=
  sendsOnly_answer store h

theorem PutItem.sendsOnly (request : PutItem) (h : P request.toCall) :
    SendsOnly P (request.send store.recording).attempt :=
  sendsOnly_answer store h

theorem UpdateItem.sendsOnly (request : UpdateItem) (h : P request.toCall) :
    SendsOnly P (request.send store.recording).attempt :=
  sendsOnly_answer store h

theorem DeleteItem.sendsOnly (request : DeleteItem) (h : P request.toCall) :
    SendsOnly P (request.send store.recording).attempt :=
  sendsOnly_answer store h

/-- A page is asked for by its call. -/
theorem PageRequest.sendsOnly (request : PageRequest) (h : P request.toCall) :
    SendsOnly P (request.send store.recording).attempt := by
  obtain ⟨access, read⟩ := request
  cases access with
  | query keyCondition forward => exact sendsOnly_answer store h
  | scan => exact sendsOnly_answer store h

/-! ### Batches of keys -/

/-- Every round asks with the same read. -/
theorem sendsOnly_readGroup {read : ItemReadCall} (h : ∀ keys, P (.batchGet keys read))
    (rounds : Nat) (pending : List Item) :
    SendsOnly P (readGroup store.recording read rounds pending).attempt := by
  induction rounds generalizing pending with
  | zero =>
      cases pending with
      | nil => exact sendsOnly_run_pure _
      | cons key keys => exact sendsOnly_run_pure _
  | succ rounds ih =>
      cases pending with
      | nil => exact sendsOnly_run_pure _
      | cons key keys =>
          simp only [readGroup]
          refine sendsOnly_run_bind (sendsOnly_answer store (h _)) fun found => ?_
          exact sendsOnly_run_bind (ih found.unprocessed) fun rest => sendsOnly_run_pure _

/-- The groups of a batch of keys send calls that read alike. -/
theorem sendsOnly_readGroups {read : ItemReadCall} (h : ∀ keys, P (.batchGet keys read))
    (rounds : Nat) (groups : List (List Item)) :
    SendsOnly P (readGroups store.recording read rounds groups).attempt := by
  induction groups with
  | nil => exact sendsOnly_run_pure _
  | cons group groups ih =>
      rw [readGroups]
      refine sendsOnly_run_bind (sendsOnly_readGroup store h rounds group) fun found => ?_
      cases found.unprocessed with
      | nil => exact sendsOnly_run_bind ih fun rest => sendsOnly_run_pure _
      | cons key keys => exact sendsOnly_run_pure _

/-- A batch of keys sends calls that read as the batch does. -/
theorem BatchGet.sendsOnly (batch : BatchGet) (rounds : Nat)
    (h : ∀ keys, P (.batchGet keys batch.read.toCall)) :
    SendsOnly P (batch.send store.recording rounds).attempt :=
  sendsOnly_readGroups store h rounds _

/-! ### Readers -/

namespace Reader

variable (hpage : ∀ reader : Reader, P reader.pageRequest.toCall)
include hpage

/-- Fetching a page sends the call for it. -/
theorem sendsOnly_fetch (reader : Reader) :
    SendsOnly P (reader.fetch store.recording).attempt := by
  unfold fetch
  refine sendsOnly_run_bind (reader.pageRequest.sendsOnly store (hpage reader)) fun page => ?_
  exact sendsOnly_run_pure _

/-- Turning the page sends the call for the next. -/
theorem sendsOnly_turnPage (reader : Reader) :
    SendsOnly P (reader.turnPage store.recording) := by
  have hload : SendsOnly P (reader.loadPage store.recording).attempt := by
    unfold loadPage
    refine sendsOnly_run_bind (sendsOnly_fetch store hpage reader) fun page => ?_
    exact sendsOnly_run_pure _
  unfold turnPage
  refine sendsOnly_bind hload fun loaded => ?_
  cases loaded with
  | ok loaded => exact sendsOnly_pure _
  | error fault => exact sendsOnly_pure _

/-- One move sends only calls for pages. -/
theorem sendsOnly_step (reader : Reader) : SendsOnly P (reader.step store.recording) := by
  unfold step
  split
  · exact sendsOnly_pure _
  · split
    · exact sendsOnly_pure _
    · exact sendsOnly_turnPage store hpage _
  · split
    · exact sendsOnly_pure _
    · split
      · exact sendsOnly_turnPage store hpage _
      · exact sendsOnly_pure _

/-- The moves up to the next item send only calls for pages. -/
theorem sendsOnly_next (moves : Nat) (reader : Reader) :
    SendsOnly P (reader.next store.recording moves) := by
  induction moves generalizing reader with
  | zero => exact sendsOnly_pure _
  | succ moves ih =>
      rw [next]
      refine sendsOnly_bind (sendsOnly_step store hpage reader) fun result => ?_
      obtain ⟨move, reader⟩ := result
      cases move with
      | turned => exact ih reader
      | yielded result => exact sendsOnly_pure _
      | ended => exact sendsOnly_pure _

/-- Counting sends the calls for the pages that it counts. -/
theorem sendsOnly_countPages (pages : Nat) (total : Int) (reader : Reader) :
    SendsOnly P (reader.countPages store.recording pages total).attempt := by
  induction pages generalizing total reader with
  | zero => exact sendsOnly_run_pure _
  | succ pages ih =>
      rw [countPages]
      refine sendsOnly_run_bind (sendsOnly_fetch store hpage reader) fun result => ?_
      obtain ⟨page, reader⟩ := result
      show SendsOnly P (Run.attempt (if reader.hasNextPage then _ else _))
      split
      · exact ih _ reader
      · exact sendsOnly_run_pure _

/-- Counting sends only calls for pages. -/
theorem sendsOnly_count (pages : Nat) (reader : Reader) :
    SendsOnly P (reader.count store.recording pages).attempt := by
  unfold count
  refine sendsOnly_run_bind ?_ fun bound => sendsOnly_countPages store hpage pages 0 bound
  cases reader.configure fun r => r.counting.bindOptions with
  | ok bound => exact sendsOnly_pure _
  | error fault => exact sendsOnly_pure _

end Reader

end KeywordTable
