import KeywordTable.Proofs.FailFast
import KeywordTable.Proofs.Paging.Settings

/-!
# Every item passes the validator once

What a table hands to its caller is told against the items that the store `returned`, in the
order in which it returned them.  A read that is done at once hands back what the validator
makes of each of them, or the first fault that it finds (`HandsBack`).  A reader has at any
time handed over what the validator makes of the first of them; the others wait in its
buffer, and none waits any more when the end was announced or a page failed (`HandsOver`).

Two local facts carry this.  A move takes items into the buffer or hands over the first one
in it, so the buffer is the end of what was returned (`Steps.buffer_isSuffix`).  Only the last
answer can be a fault, so what was received is what was returned, and then that fault
(`Follows.received_eq`).

How strict the validator is with the items of a reader is decided by the index it reads
through and the attributes it was last told to return (`readsPart`).  Options and going on
after a page keep it that way (`Reads.carries`).

The main result, `Table.validates`, holds for every table, validator and store.
-/

namespace KeywordTable

variable {σ : Type}

open Event

/-! ### What the store returned -/

/-- The items in an answer of the store. -/
def Exchange.items : Exchange → List Item
  | ⟨.getItem _ _, .ok found⟩ => found.toList
  | ⟨.updateItem _ _ _, .ok changed⟩ => changed.toList
  | ⟨.batchGet _ _, .ok found⟩ => found.items
  | ⟨.query _ _ _, .ok page⟩ => page.items
  | ⟨.scan _, .ok page⟩ => page.items
  | _ => []

/-- The items that the store returned, in order. -/
def returned (exchanges : List Exchange) : List Item := exchanges.flatMap Exchange.items

/-- One exchange returned its items. -/
theorem returned_singleton (exchange : Exchange) : returned [exchange] = exchange.items :=
  List.flatMap_singleton _ _

/-- What was returned in two parts of a conversation. -/
theorem returned_append (exchanges more : List Exchange) :
    returned (exchanges ++ more) = returned exchanges ++ returned more :=
  List.flatMap_append

/-- A page that was asked for returned its items. -/
theorem PageRequest.items_exchange_ok (request : PageRequest) (page : Page) :
    (request.exchange (.ok page)).items = page.items := by
  obtain ⟨access, read⟩ := request
  cases access <;> rfl

theorem PageRequest.items_exchange_error (request : PageRequest) (fault : Fault) :
    (request.exchange (.error fault)).items = [] := by
  obtain ⟨access, read⟩ := request
  cases access <;> rfl

/-- An exchange for a page failed if the page did. -/
theorem PageRequest.fault?_exchange (request : PageRequest) (answer : Except Fault Page) :
    (request.exchange answer).fault? = faultOf answer := by
  obtain ⟨access, read⟩ := request
  cases access <;> rfl

/-- A batch of keys returned what its rounds found. -/
theorem returned_ofKeys (read : ItemReadCall) (rounds : List (Round Item BatchFound)) :
    returned (rounds.map (Round.ofKeys read)) = rounds.flatMap Round.items := by
  rw [returned, List.flatMap_map]
  congr 1
  funext round
  obtain ⟨submitted, answer⟩ := round
  cases answer <;> rfl

/-! ### Reads that are done at once -/

/-- What a read hands back that makes these exchanges and is refused for these faults, when
this validator sees every item and is told whether it may lack attributes. -/
inductive HandsBack (refusal : Fault → Prop) (validator : Validator) (part : Bool)
    (exchanges : List Exchange) : Except Fault (List Item) → Prop
  /-- It was refused before anything was sent. -/
  | refused {fault : Fault} (hrefusal : refusal fault) (hnone : exchanges = []) :
      HandsBack refusal validator part exchanges (.error fault)
  /-- The store failed. -/
  | failed {fault : Fault} (hfault : EndsIn (some fault) (exchanges.map Exchange.fault?)) :
      HandsBack refusal validator part exchanges (.error fault)
  /-- Every item passed. -/
  | passed {items : List Item} (hunfailed : EndsIn none (exchanges.map Exchange.fault?))
      (hitems : (returned exchanges).map (validator · part) = items.map .ok) :
      HandsBack refusal validator part exchanges (.ok items)
  /-- An item did not pass, and it was the first. -/
  | unfit {before after : List Item} {item : Item} {violations : Violations}
      (hunfailed : EndsIn none (exchanges.map Exchange.fault?))
      (hreturned : returned exchanges = before ++ item :: after)
      (hbefore : ∀ other ∈ before, ∃ passed, validator other part = .ok passed)
      (hitem : validator item part = .error violations) :
      HandsBack refusal validator part exchanges (.error (.invalid violations))

/-- When all of a list passes, so does each of its items. -/
theorem Validator.map_eq_of_mapM_check {validator : Validator} {part : Bool}
    {items passed : List Item}
    (h : items.mapM (validator.check · part) = .ok passed) :
    items.map (validator · part) = passed.map .ok := by
  have hchecked := mapM_eq_ok_iff.mp h
  rw [← List.forall₂_eq_eq_eq, List.forall₂_map_left_iff, List.forall₂_map_right_iff] at hchecked ⊢
  exact hchecked.imp fun item passed hitem => check_eq_ok_iff.mp hitem

/-- The validator sees the items one after the other. -/
theorem handsBack_mapM (refusal : Fault → Prop) (validator : Validator) (part : Bool)
    {exchanges : List Exchange} {fault? : Option Fault}
    (hends : EndsIn fault? (exchanges.map Exchange.fault?)) :
    HandsBack refusal validator part exchanges
      (orFault fault? (returned exchanges) >>= (·.mapM (validator.check · part))) := by
  cases fault? with
  | some fault => exact .failed hends
  | none =>
      show HandsBack refusal validator part exchanges
        ((returned exchanges).mapM (validator.check · part))
      cases hchecked : (returned exchanges).mapM (validator.check · part) with
      | ok items => exact .passed hends (Validator.map_eq_of_mapM_check hchecked)
      | error fault =>
          obtain ⟨before, item, after, hreturned, hbefore, hitem⟩ := mapM_eq_error_iff.mp hchecked
          obtain ⟨violations, hunfit, rfl⟩ := Validator.check_eq_error_iff.mp hitem
          refine .unfit hends hreturned (fun other hmem => ?_) hunfit
          obtain ⟨passed, hother⟩ := hbefore other hmem
          exact ⟨passed, Validator.check_eq_ok_iff.mp hother⟩

/-- An item that is found passes as a list of one does. -/
theorem Table.map_itemFound (table : Table) (incomplete : Bool) (found : Option Item) :
    (table.itemFound incomplete found).map Option.toList =
      found.toList.mapM (table.validator.check · incomplete) := by
  cases found with
  | none => rfl
  | some item =>
      show (Except.map some (table.validator.check item incomplete)).map Option.toList =
        table.validator.check item incomplete >>= fun passed => Except.ok [passed]
      cases table.validator.check item incomplete <;> rfl

namespace TableCall

/-- Does it hand back items? -/
def readsItems : TableCall → Bool
  | .get _ _ | .getBatch _ _ _ | .update _ _ => true
  | _ => false

/-- May the items lack attributes? -/
def readsPart : TableCall → Bool
  | .getBatch _ _ attributes => !attributes.isEmpty
  | .update _ _ => true
  | _ => false

/-- The request cannot be made, for this fault. -/
def IsRefused (table : Table) : TableCall → Fault → Prop
  | .get key consistent, fault => table.getRequest key consistent = .error fault
  | .getBatch keys consistent attributes, fault =>
    table.getBatchRequest keys consistent attributes = .error fault
  | .update arguments conditions, fault => table.updateRequest arguments conditions = .error fault
  | _, _ => False

/-- The items that are handed back. -/
def items : (call : TableCall) → call.Reply → List Item
  | .get _ _, item | .update _ _, item => item.toList
  | .getBatch _ _ _, found => found.items
  | .put _, _ | .putUnique _, _ | .delete _ _, _ | .putBatch _, _ | .deleteBatch _, _
  | .query _, _ | .scan _, _ | .index _, _ | .queryIndex _ _, _ | .scanIndex _ _, _ => []

/-- There is a run of the program, and what it hands back has passed the validator. -/
def Passes (call : TableCall) (table : Table) (program : Program call.Reply) (store : Store σ)
    (state : σ) : Prop :=
  ∃ exchanges outcome later, Makes program store state exchanges outcome later ∧
    HandsBack (call.IsRefused table) table.validator call.readsPart exchanges
      (outcome.map call.items)

section Laws

variable {call : TableCall} {table : Table} {store : Store σ} {state : σ}

/-- A call that makes a request first. -/
theorem Passes.of_request {α : Type} {request : Except Fault α}
    {next : (τ : Type) → Store τ → α → Run τ call.Reply}
    (hrequest : ∀ fault, request = .error fault → call.IsRefused table fault)
    (hnext : ∀ accepted, request = .ok accepted →
      call.Passes table (fun τ store => next τ store accepted) store state) :
    call.Passes table (fun τ store => Run.ofExcept request >>= next τ store) store state :=
  exists_makes_of_request (fun fault h => .refused (hrequest fault h) rfl) hnext

/-- One item is read. -/
theorem Passes.of_read (sent : Call) {next : sent.Reply → Except Fault call.Reply}
    (hnext : ∀ reply, (next reply).map call.items =
      (Exchange.items ⟨sent, .ok reply⟩).mapM (table.validator.check · call.readsPart)) :
    call.Passes table (fun _ store => store.answer sent >>= fun reply => Run.ofExcept (next reply))
      store state := by
  rcases hanswer : (store.answer sent).attempt state with ⟨answer, later⟩
  refine ⟨_, _, later, (makes_answer hanswer).andThen next, ?_⟩
  have hpasses := handsBack_mapM (call.IsRefused table) table.validator call.readsPart
    (endsIn_fault? ⟨sent, answer⟩)
  cases answer with
  | error fault => exact hpasses
  | ok reply =>
      rw [returned_singleton] at hpasses
      show HandsBack _ _ _ _ ((next reply).map call.items)
      rw [hnext]
      exact hpasses

end Laws

section Calls

variable (table : Table) (rounds : Nat) (store : Store σ) (state : σ)

/-- The item under a key is handed back as it passed, for what it is. -/
theorem passes_get (key : Arguments) (consistent : Bool) :
    Passes (.get key consistent) table (run table rounds _) store state :=
  .of_request (fun _ h => h) fun request _ =>
    .of_read request.toCall (table.map_itemFound false)

/-- The attributes that a change returns are handed back as they passed, for a part. -/
theorem passes_update (arguments conditions : Arguments) :
    Passes (.update arguments conditions) table (run table rounds _) store state :=
  .of_request (fun _ h => h) fun request _ =>
    .of_read request.toCall (table.map_itemFound true)

/-- The items of a batch are handed back as they passed, for a part if attributes were asked
for. -/
theorem passes_getBatch (keys : List Arguments) (consistent : Bool) (attributes : List String) :
    Passes (.getBatch keys consistent attributes) table (run table rounds _) store state := by
  refine .of_request (fun _ h => h) fun batch hbatch => ?_
  have hpart : (!batch.read.selection.isEmpty) = !attributes.isEmpty := by
    obtain ⟨_, _, hrest⟩ := bind_eq_ok_iff.mp hbatch
    obtain ⟨selection, hparse, hbatch⟩ := bind_eq_ok_iff.mp hrest
    cases hbatch
    rw [Selection.isEmpty_of_parse hparse]
  obtain ⟨asked, remaining, fault?, later, hmakes, hsends, -⟩ :=
    makes_readGroups store batch.read.toCall rounds (groupsOf (maxBatchGet - 1) batch.keys) state
  have hpasses := handsBack_mapM (IsRefused table (.getBatch keys consistent attributes))
    table.validator (!attributes.isEmpty) (hsends.endsIn_ofKeys batch.read.toCall)
  simp only [Run.ofExcept_bind_pure, hpart]
  refine ⟨_, _, later, hmakes.andThen _, ?_⟩
  cases fault? with
  | some fault => exact hpasses
  | none =>
      have hitems (result : Except Fault (List Item)) :
          (result.map fun items => BatchFound.mk items remaining.flatten).map BatchFound.items =
            result := by
        cases result <;> rfl
      rw [returned_ofKeys] at hpasses
      show HandsBack _ _ _ _ ((Except.map _ _).map BatchFound.items)
      rw [hitems]
      exact hpasses

/-- **Reads at once** hand back what has passed the validator. -/
theorem passes (call : TableCall) (hreads : call.readsItems = true) :
    call.Passes table (run table rounds call) store state := by
  cases call with
  | get key consistent => exact passes_get table rounds store state key consistent
  | getBatch keys consistent attributes =>
      exact passes_getBatch table rounds store state keys consistent attributes
  | update arguments conditions =>
      exact passes_update table rounds store state arguments conditions
  | _ => cases hreads

end Calls

end TableCall

namespace Reader

variable {start reader left : Reader} {history events : List Event} {exchanges : List Exchange}
  {move : Move}

/-! ### What a reader holds -/

/-- What waits in the buffer are the last of the items that were returned. -/
theorem Step.buffer_isSuffix (h : reader.Step exchanges move left) :
    left.buffer <:+ reader.buffer ++ returned exchanges := by
  cases h with
  | exhausted | ended => simp [returned]
  | conflict | failed => exact List.nil_suffix
  | loaded hturns page =>
      obtain ⟨budget, rfl⟩ := hturns.eq
      simp [returned_singleton, PageRequest.items_exchange_ok]
  | @yielded raw rest hphase hbuffer =>
      rw [hbuffer]
      exact ⟨[raw], by simp [returned]⟩

/-- What waits after any number of moves are the last of the items that were returned. -/
theorem Steps.buffer_isSuffix (h : Steps reader events left) :
    left.buffer <:+ reader.buffer ++ returned (Event.exchanges events) := by
  induction h with
  | refl reader => simp [returned, Event.exchanges]
  | step hstep hrest ih =>
      rw [exchanges_append, exchanges_events, returned_append, ← List.append_assoc]
      obtain ⟨before, hbefore⟩ := hstep.buffer_isSuffix
      rw [← hbefore, List.append_assoc]
      exact ih.trans (List.suffix_append _ _)

/-- Only a reader that is bound holds anything. -/
theorem Step.bound_of_buffer (h : reader.Step exchanges move left)
    (hbound : reader.buffer ≠ [] → reader.phase = .bound) (hne : left.buffer ≠ []) :
    left.phase = .bound := by
  cases h with
  | exhausted hphase => exact hbound hne
  | conflict | failed => exact absurd rfl hne
  | loaded hturns page => exact hturns.phase_eq
  | yielded hphase hbuffer => exact hphase
  | ended hphase hbuffer hlast => exact absurd hbuffer hne

/-- After any number of moves, only a reader that is bound holds anything. -/
theorem Steps.bound_of_buffer (h : Steps reader events left)
    (hbound : reader.buffer ≠ [] → reader.phase = .bound) (hne : left.buffer ≠ []) :
    left.phase = .bound := by
  induction h with
  | refl reader => exact hbound hne
  | step hstep hrest ih => exact ih (hstep.bound_of_buffer hbound) hne

/-- What the validator makes of an item stays the same. -/
theorem Steps.validated_eq (h : Steps reader events left) : left.validated = reader.validated := by
  show (left.startingAfter []).validated = (reader.startingAfter []).validated
  rw [h.startingAfter_eq]

/-- As long as an item waits, a call hands over the first and asks the store for nothing. -/
theorem next_eq_of_buffer {item : Item} {rest : List Item} (hphase : reader.phase = .bound)
    (hbuffer : reader.buffer = item :: rest) (store : Store σ) (moves : Nat) (state : σ) :
    reader.next store (moves + 1) state =
      ((.yielded (reader.validated item), { reader with buffer := rest }), state) := by
  have hnone : store.Serves state [] state := .nil state
  have hstep := step_eq_of_serves (Step.yielded hphase hbuffer) hnone
  rw [next, bind_apply, hstep]
  rfl

/-! ### What a reader has handed over -/

/-- What a reader has handed over of the items that the store returned to it, and what it
holds then, when this validator sees every item and is told whether it may lack attributes. -/
inductive HandsOver (start : Reader) (validator : Validator) (part : Bool) (history : List Event)
    (waiting : List Item) : Prop
  /-- The first of them; the others wait. -/
  | going {handed : List Item}
      (hunfailed : EndsIn none ((Event.exchanges history).map Exchange.fault?))
      (hreturned : returned (Event.exchanges history) = handed ++ waiting)
      (hresults : results history = handed.map fun item => (validator item part).mapError .invalid)
      (hended : .ended ∈ history → waiting = [])
  /-- All of them, and then the fault of the page that failed. -/
  | failed {fault : Fault}
      (hfault : EndsIn (some fault) ((Event.exchanges history).map Exchange.fault?))
      (hresults : results history = (returned (Event.exchanges history)).map
        (fun item => (validator item part).mapError .invalid) ++ [.error fault])
      (hwaiting : waiting = [])
  /-- There are none, since its options conflict. -/
  | conflict {reason : String} (hconflict : start.HasConflict)
      (hnone : Event.exchanges history = [])
      (hresults : results history = [.error (.conflictingOptions reason)])
      (hwaiting : waiting = [])

/-- **What was received is what was returned**, and then the fault of the last page if that
failed.  After a page that failed none is asked for. -/
theorem Follows.received_eq (h : start.Follows history) :
    ((∀ fault, .error fault ∉ answers history) ∧
        EndsIn none ((Event.exchanges history).map Exchange.fault?) ∧
        start.received history = (returned (Event.exchanges history)).map start.validated) ∨
      ∃ fault, .error fault ∈ answers history ∧
        EndsIn (some fault) ((Event.exchanges history).map Exchange.fault?) ∧
        start.received history =
          (returned (Event.exchanges history)).map start.validated ++ [.error fault] := by
  induction h with
  | start => exact .inl ⟨by simp, endsIn_nil, rfl⟩
  | @next history event h hdue ih =>
      cases event with
      | yielded result | ended => simpa [received_append, received] using ih
      | asked exchange =>
          obtain ⟨-, hwants, answer, rfl⟩ := hdue
          rcases ih with ⟨-, hends, hreceived⟩ | ⟨fault, hfault, -⟩
          case inr => exact absurd hfault (hwants.1 fault)
          have hasked := hends.append (endsIn_fault? ((start.nextRequest history).exchange answer))
          rw [PageRequest.fault?_exchange] at hasked
          rw [received_append, exchanges_append, List.map_append, hreceived, returned_append,
            List.map_append, answers_append]
          cases answer with
          | ok page =>
              refine .inl ⟨by simpa using hwants.1, hasked, ?_⟩
              simp [received, Event.exchanges, returned_singleton,
                PageRequest.items_exchange_ok]
          | error fault =>
              refine .inr ⟨fault, by simp, hasked, ?_⟩
              simp [received, Event.exchanges, returned_singleton,
                PageRequest.items_exchange_error]

/-- What was received and not yielded is what the reader holds. -/
theorem Reached.received_eq (h : Reached start history left)
    (hbound : left.buffer ≠ [] → left.phase = .bound) :
    start.received history = results history ++ left.buffer.map start.validated := by
  cases h with
  | configuring hfresh =>
      rw [hfresh.buffer]
      rfl
  | bound hphase htracks hpages => exact htracks.buffered
  | exhausted hphase hall hstop =>
      have hnothing : left.buffer = [] := Decidable.byContradiction fun hne => by
        rw [hbound hne] at hphase
        cases hphase
      rw [hall, hnothing, List.map_nil, List.append_nil]

/-- **Every item is handed over once**, in the order in which it was returned. -/
theorem Configured.handsOver (hconfigured : start.Configured) (hsteps : Steps start history left) :
    start.HandsOver start.validator start.yieldsIncomplete history left.buffer := by
  have hsuffix : left.buffer <:+ returned (Event.exchanges history) := by
    simpa [hconfigured.fresh.buffer] using hsteps.buffer_isSuffix
  by_cases hconflict : start.HasConflict
  · have hnone := hsteps.exchanges_of_hasConflict hconfigured.fresh hconflict
    rw [hnone] at hsuffix
    have hwaiting : left.buffer = [] := List.suffix_nil.mp hsuffix
    rw [hwaiting]
    rcases hsteps.eq_of_hasConflict hconfigured.fresh hconflict with rfl | ⟨reason, count, rfl⟩
    · exact @HandsOver.going start start.validator start.yieldsIncomplete [] [] [] endsIn_nil rfl
        rfl fun _ => rfl
    · have hresults : results (.yielded (.error (.conflictingOptions reason)) ::
          List.replicate count .ended) = [.error (.conflictingOptions reason)] :=
        congrArg (_ :: ·) (results_replicate_ended count)
      exact .conflict hconflict hnone hresults rfl
  · obtain ⟨hfollows, hreached⟩ := hconfigured.reached hconflict hsteps
    have hheld := hreached.received_eq
      (hsteps.bound_of_buffer fun hne => absurd hconfigured.fresh.buffer hne)
    rcases hfollows.received_eq with ⟨-, hends, hreceived⟩ | ⟨fault, hfault, hends, hreceived⟩
    · obtain ⟨handed, hreturned⟩ := hsuffix
      refine .going hends hreturned.symm ?_ fun hended => ?_
      · rw [hreceived, ← hreturned, List.map_append] at hheld
        exact (List.append_cancel_right hheld).symm
      · have hall := (done_of_ended hconfigured hconflict hsteps hended).1
        rw [← hall] at hheld
        simpa using hheld
    · have hwaiting : left.buffer = [] := by
        cases hreached with
        | configuring _ => cases hfault
        | bound _ htracks _ => exact absurd hfault (htracks.unfailed fault)
        | exhausted _ hall _ =>
            rw [← hall] at hheld
            simpa using hheld
      rw [hwaiting, List.map_nil, List.append_nil, hreceived] at hheld
      exact .failed hends hheld.symm hwaiting

/-! ### How strict the validator is -/

/-- May the items lack attributes that are read through this index, if any, with these
options? -/
def readsPart (index : Option IndexDeclaration) (settings : List Setting) : Bool :=
  (index.any fun declared => declared.projection ≠ .all) ||
    (Options.of settings).attributes.any fun names => !names.isEmpty

end Reader

namespace Table

open Reader

variable {table : Table} {index : Option IndexDeclaration} {settings : List Setting}
  {reader : Reader}

/-- The paged reads of a table: the index they go through, the options they have taken so
far, and the reader that has taken them. -/
inductive Reads (table : Table) : Option IndexDeclaration → List Setting → Reader → Prop
  | query {arguments : Arguments} {reader : Reader} (h : table.query arguments = .ok reader) :
      Reads table none [] reader
  | scan {arguments : Arguments} {reader : Reader} (h : table.scan arguments = .ok reader) :
      Reads table none [] reader
  | queryIndex {name : String} {index : IndexDeclaration} {arguments : Arguments}
      {reader : Reader} (hindex : table.index name = .ok index)
      (h : table.queryIndex index arguments = .ok reader) : Reads table (some index) [] reader
  | scanIndex {name : String} {index : IndexDeclaration} {arguments : Arguments}
      {reader : Reader} (hindex : table.index name = .ok index)
      (h : table.scanIndex index arguments = .ok reader) : Reads table (some index) [] reader
  | set {index : Option IndexDeclaration} {settings : List Setting} {reader changed : Reader}
      (h : Reads table index settings reader) (setting : Setting)
      (hset : setting.apply reader = .ok changed) :
      Reads table index (settings ++ [setting]) changed
  | again {index : Option IndexDeclaration} {settings : List Setting}
      {reader left fresh : Reader} {τ : Type} {store : Store τ} {state later : τ}
      {history : List Event} (h : Reads table index settings reader)
      (hshows : Shows store reader state history left later) (hagain : left.again = .ok fresh) :
      Reads table index settings fresh

/-- What decides on the strictness is what it was when the read began, up to the attributes
that were asked for. -/
structure Carries (table : Table) (index : Option IndexDeclaration) (settings : List Setting)
    (reader : Reader) : Prop where
  configured : reader.Configured
  validator : reader.validator = table.validator
  incomplete : reader.incomplete = index.any fun declared => declared.projection ≠ .all
  selection : reader.request.read.selection.isEmpty =
    !(Options.of settings).attributes.any fun names => !names.isEmpty

/-- A read that begins is as strict as its index, since no attributes were asked for yet. -/
theorem carries_ofRequest {request : PageRequest} (hselection : request.read.selection = {})
    {incomplete : Bool}
    (hincomplete : incomplete = index.any fun declared => declared.projection ≠ .all) :
    table.Carries index [] (.ofRequest request table.validator incomplete) where
  configured := .ofRequest _ _ _
  validator := rfl
  incomplete := hincomplete
  selection := by
    rw [show (Reader.ofRequest request table.validator incomplete).request = request from rfl,
      hselection]
    rfl

/-- An option decides anew only which attributes are asked for. -/
theorem Carries.set {setting : Setting} {changed : Reader}
    (h : table.Carries index settings reader) (hset : setting.apply reader = .ok changed) :
    table.Carries index (settings ++ [setting]) changed := by
  have hconfigured := h.configured.set setting hset
  obtain ⟨-, hsets⟩ := Setting.apply_eq_ok_iff.mp hset
  cases hsets with
  | limit | start | consistent | reverse | recursively | limitAcrossPages =>
      refine ⟨hconfigured, h.validator, h.incomplete, ?_⟩
      rw [Options.of_append]
      exact h.selection
  | specificAttributes hparse =>
      refine ⟨hconfigured, h.validator, h.incomplete, ?_⟩
      rw [Options.of_append]
      simp [Options.add, modifyRead, Selection.isEmpty_of_parse hparse]

/-- Going on after a page is as strict as before. -/
theorem Carries.again {left fresh : Reader} {history : List Event}
    (h : table.Carries index settings reader) (hsteps : Steps reader history left)
    (hagain : left.again = .ok fresh) : table.Carries index settings fresh := by
  have hconfigured : fresh.Configured := .again hagain
  cases hlast : left.last with
  | none =>
      rw [again_eq_error hlast] at hagain
      cases hagain
  | some key =>
      rw [again_eq_ok hlast, hsteps.startingAfter_eq] at hagain
      cases hagain
      exact ⟨hconfigured, h.validator, h.incomplete, h.selection⟩

/-- **Strictness is carried** through options and from page to page. -/
theorem Reads.carries (h : table.Reads index settings reader) :
    table.Carries index settings reader := by
  induction h with
  | query h =>
      obtain ⟨request, hselection, rfl⟩ := TableCall.eq_ofRequest_of_query h
      exact carries_ofRequest hselection rfl
  | scan h =>
      obtain ⟨request, hselection, rfl⟩ := TableCall.eq_ofRequest_of_scan h
      exact carries_ofRequest hselection rfl
  | queryIndex hindex h =>
      obtain ⟨request, hselection, rfl⟩ := TableCall.eq_ofRequest_of_query h
      exact carries_ofRequest hselection (Projection.isPartial_eq _)
  | scanIndex hindex h =>
      obtain ⟨request, hselection, rfl⟩ := TableCall.eq_ofRequest_of_scan h
      exact carries_ofRequest hselection (Projection.isPartial_eq _)
  | set h setting hset ih => exact ih.set hset
  | again h hshows hagain ih => exact ih.again (shows_iff.mp hshows).1 hagain

/-- How strict the validator is follows from the index and the options alone. -/
theorem Carries.yieldsIncomplete_eq (h : table.Carries index settings reader) :
    reader.yieldsIncomplete = readsPart index settings := by
  rw [yieldsIncomplete, h.incomplete, h.selection, Bool.not_not]
  rfl

/-- Every item that a table hands to its caller has passed the validator once, and the
validator was told whether the item may lack attributes. -/
structure Validates (table : Table) : Prop where
  /-- Reads by keys, and the attributes that a change returns. -/
  atOnce : ∀ {σ : Type} (store : Store σ) (state : σ) (rounds : Nat) (call : TableCall),
    call.readsItems = true → call.Passes table (call.run table rounds) store state
  /-- Queries and scans, of the table and of its indexes. -/
  paged : ∀ {σ : Type} (store : Store σ) (state : σ) (index : Option IndexDeclaration)
    (settings : List Setting) (reader : Reader) (history : List Event) (left : Reader) (later : σ),
    table.Reads index settings reader → Shows store reader state history left later →
    reader.HandsOver table.validator (readsPart index settings) history left.buffer
  /-- As long as an item waits, the next call hands over the first that does, and asks the
  store for nothing. -/
  next : ∀ {σ : Type} (store : Store σ) (state : σ) (index : Option IndexDeclaration)
    (settings : List Setting) (reader : Reader) (history : List Event) (left : Reader) (later : σ)
    (item : Item) (rest : List Item),
    table.Reads index settings reader → Shows store reader state history left later →
    left.buffer = item :: rest → ∀ moves, left.next store (moves + 1) later =
      ((.yielded ((table.validator item (readsPart index settings)).mapError .invalid),
        { left with buffer := rest }), later)

/-- **Every item passes the validator once**, whatever is read and whatever the store
answers. -/
theorem validates (table : Table) : table.Validates where
  atOnce store state rounds call hreads := TableCall.passes table rounds store state call hreads
  paged store state index settings reader history left later hreads hshows := by
    have hcarries := hreads.carries
    rw [← hcarries.validator, ← hcarries.yieldsIncomplete_eq]
    exact hcarries.configured.handsOver (shows_iff.mp hshows).1
  next store state index settings reader history left later item rest hreads hshows hbuffer
      moves := by
    have hcarries := hreads.carries
    obtain ⟨hsteps, -⟩ := shows_iff.mp hshows
    have hphase := hsteps.bound_of_buffer
      (fun hne => absurd hcarries.configured.fresh.buffer hne) (by simp [hbuffer])
    rw [next_eq_of_buffer hphase hbuffer, hsteps.validated_eq, validated, hcarries.validator,
      hcarries.yieldsIncomplete_eq]
    rfl

/-- A table with an index that holds only keys.  Its validator writes down how strict it was. -/
def visitsByDay : Table where
  declaration :=
    { name := "visits"
      schema := { hashKey := "id" }
      indexes := [{ name := "byDay", schema := { hashKey := "day" }, projection := .keys }] }
  validator := Rules.validator { stamp := some "part" }

/-- The same item in every read: complete when it is read by its key or through the table,
a part when it is read through the index, returned by a change, or read with a list of
attributes, also after going on to the next page, until that list is empty. -/
theorem validates_visitsByDay :
    let key : Item := [("id", .text "a")]
    let passed (part : Bool) : Item := [("id", .text "a"), ("part", .bool part)]
    let script : List ScriptedAnswer :=
      [{ item := some key, page := { items := [key], last := some key } }]
    let yields (reader : Reader) := results (historyOf (reader.pulls scriptedStore [1] script).1.1)
    let further := do
      let reader ← (← visitsByDay.scan []).specificAttributes ["id"]
      (reader.pulls scriptedStore [1] script).1.2.again
    visitsByDay.Validates ∧
      ((visitsByDay.get scriptedStore [("id", .text "a")] false).attempt script).1 =
        .ok (some (passed false)) ∧
      ((visitsByDay.update scriptedStore [("id", .text "a"), ("n", .integer 1)] []).attempt
        script).1 = .ok (some (passed true)) ∧
      (visitsByDay.scan []).map yields = .ok [.ok (passed false)] ∧
      (visitsByDay.index "byDay" >>= (visitsByDay.scanIndex · [])).map yields =
        .ok [.ok (passed true)] ∧
      further.map yields = .ok [.ok (passed true)] ∧
      (further >>= (·.specificAttributes [])).map yields = .ok [.ok (passed false)] :=
  ⟨validates visitsByDay, by rfl, by rfl, by rfl, by rfl, by rfl, by rfl⟩

end Table

end KeywordTable
