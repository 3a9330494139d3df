import KeywordTable.Proofs.Batches
import KeywordTable.Proofs.Paging.Options
import KeywordTable.Proofs.Refusals

/-!
# What fails fails first

`TableCall` is everything that can be asked of a table, and `TableCall.run` what is done
then.  A call whose arguments, names or items are refused makes no exchange at all, also
when the last element of a long batch is the one refused; a call for one item that is not
refused makes exactly one exchange, whatever comes of it; and after an answer that is a
fault nothing is sent any more (`TableCall.FailsFast`).

Paged reads make no exchange before the reader is used.  When its options conflict, it
makes none then either (`Reader.sendsNothing_of_hasConflict`).

The main result, `TableCall.failsFast`, holds for every table, with any validator, and every
store that reports only faults that a store can have (`Store.OnlyReports`).
-/

namespace KeywordTable

variable {σ α β : Type}

/-! ### Conflicting options -/

namespace Reader

/-- Neither asking for the next item nor counting changes the state of any store, the one
that keeps its exchanges included; both report that options conflict. -/
def SendsNothing (reader : Reader) : Prop :=
  ∃ reason, ∀ (τ : Type) (store : Store τ) (state : τ) (bound : Nat),
    reader.next store (bound + 1) state =
        ((.yielded (.error (.conflictingOptions reason)), reader.exhaust), state) ∧
      (reader.count store bound).attempt state = (.error (.conflictingOptions reason), state)

/-- Options that conflict make the first page and the count fail alike. -/
theorem bindOptions_of_hasConflict {reader : Reader} (h : reader.HasConflict) :
    ∃ reason, reader.bindOptions = .error (.conflictingOptions reason) ∧
      reader.counting.bindOptions = .error (.conflictingOptions reason) := by
  obtain ⟨hrecursive, hlimit, hacross⟩ := h
  have hcheck : (reader.recursive && reader.request.read.limit.isSome &&
      !reader.acrossPages) = true := by
    rw [hrecursive, hlimit, hacross]
    rfl
  exact ⟨_, if_pos hcheck, if_pos hcheck⟩

/-- **Conflicting options** are found before anything is sent. -/
theorem sendsNothing_of_hasConflict {reader : Reader} (hfresh : reader.Fresh)
    (hconflict : reader.HasConflict) : reader.SendsNothing := by
  obtain ⟨reason, hbind, hcounting⟩ := bindOptions_of_hasConflict hconflict
  refine ⟨reason, fun τ store state bound => ⟨?_, ?_⟩⟩
  · have hnone : store.Serves state [] state := .nil state
    have hstep := step_eq_of_serves (Step.conflict hfresh.phase hbind) hnone
    rw [next, bind_apply, hstep]
    rfl
  · have hconfigure : (reader.configure fun r => r.counting.bindOptions) =
        .error (.conflictingOptions reason) := by
      rw [configure, if_pos hfresh.phase, hcounting]
    unfold count
    rw [hconfigure]
    rfl

/-- The reader with options, one after the other, if they are accepted. -/
def configureAll (reader : Reader) (settings : List Setting) : Except Fault Reader :=
  settings.foldlM (fun reader setting => setting.apply reader) reader

/-- Any number of options can be set before the first page. -/
theorem Configured.configureAll {reader changed : Reader} {settings : List Setting}
    (hreader : reader.Configured) (h : reader.configureAll settings = .ok changed) :
    changed.Configured := by
  induction settings generalizing reader with
  | nil =>
      cases h
      exact hreader
  | cons setting settings ih =>
      unfold Reader.configureAll at h ih
      rw [List.foldlM_cons] at h
      cases hset : setting.apply reader with
      | error fault =>
          rw [hset] at h
          cases h
      | ok next =>
          rw [hset] at h
          exact ih (hreader.set setting hset) h

end Reader

/-! ### Calls of a table -/

/-- What can be asked of a table. -/
inductive TableCall where
  | get (key : Arguments) (consistent : Bool)
  | getBatch (keys : List Arguments) (consistent : Bool) (attributes : List String)
  | put (plain : Plain)
  | putUnique (plain : Plain)
  | putBatch (items : List Plain)
  | deleteBatch (keys : List Arguments)
  | update (arguments conditions : Arguments)
  | delete (key conditions : Arguments)
  | query (arguments : Arguments)
  | scan (arguments : Arguments)
  | index (name : String)
  | queryIndex (name : String) (arguments : Arguments)
  | scanIndex (name : String) (arguments : Arguments)

namespace TableCall

/-- What a call hands back when it succeeds. -/
abbrev Reply : TableCall → Type
  | .get _ _ | .update _ _ => Option Item
  | .getBatch _ _ _ => BatchFound
  | .put _ | .putUnique _ | .delete _ _ => Unit
  | .putBatch _ | .deleteBatch _ => List WriteRequest
  | .query _ | .scan _ | .queryIndex _ _ | .scanIndex _ _ => Reader
  | .index _ => IndexDeclaration

/-- What is done for a call. -/
def run (table : Table) (rounds : Nat) : (call : TableCall) → Program call.Reply
  | .get key consistent => fun _ store => table.get store key consistent
  | .getBatch keys consistent attributes =>
    fun _ store => table.getBatch store rounds keys consistent attributes
  | .put plain => fun _ store => table.put store plain
  | .putUnique plain => fun _ store => table.putUnique store plain
  | .putBatch items => fun _ store => table.putBatch store rounds items
  | .deleteBatch keys => fun _ store => table.deleteBatch store rounds keys
  | .update arguments conditions => fun _ store => table.update store arguments conditions
  | .delete key conditions => fun _ store => table.delete store key conditions
  | .query arguments => fun _ _ => Run.ofExcept (table.query arguments)
  | .scan arguments => fun _ _ => Run.ofExcept (table.scan arguments)
  | .index name => fun _ _ => Run.ofExcept (table.index name)
  | .queryIndex name arguments =>
    fun _ _ => Run.ofExcept (table.index name >>= fun index => table.queryIndex index arguments)
  | .scanIndex name arguments =>
    fun _ _ => Run.ofExcept (table.index name >>= fun index => table.scanIndex index arguments)

/-- Is it about one item? -/
def isSingle : TableCall → Bool
  | .get _ _ | .put _ | .putUnique _ | .update _ _ | .delete _ _ => true
  | _ => false

/-- Does it only prepare a paged read? -/
def isPaged : TableCall → Bool
  | .query _ | .scan _ | .index _ | .queryIndex _ _ | .scanIndex _ _ => true
  | _ => false

/-- Does it write whole items? -/
def writesItems : TableCall → Bool
  | .put _ | .putUnique _ | .putBatch _ => true
  | _ => false

/-- The reader that is handed back, if one is. -/
def reader? : (call : TableCall) → call.Reply → Option Reader
  | .query _, reader | .scan _, reader | .queryIndex _ _, reader | .scanIndex _ _, reader =>
    some reader
  | .get _ _, _ | .getBatch _ _ _, _ | .put _, _ | .putUnique _, _ | .putBatch _, _
  | .deleteBatch _, _ | .update _ _, _ | .delete _ _, _ | .index _, _ => none

/-- Does the fault say that the call was refused?  Items that are written are refused by
the validator, too; the faults that it finds in items that were read say nothing. -/
def refuses (call : TableCall) (fault : Fault) : Bool :=
  fault.isLocal || call.writesItems && fault.isInvalid

variable (call : TableCall) (state : σ) (exchanges : List Exchange)
  (outcome : Except Fault call.Reply) (later : σ)

/-- What a call may do, once it is known how it ends. -/
structure FailsFast : Prop where
  /-- A call that is refused makes no exchange. -/
  refused : ∀ fault, outcome = .error fault → call.refuses fault = true →
    exchanges = [] ∧ later = state
  /-- A call for one item is refused or makes one exchange. -/
  single : call.isSingle = true → exchanges.length = 1 ∨
    exchanges = [] ∧ ∃ fault, outcome = .error fault ∧ call.refuses fault = true
  /-- A paged read is only prepared. -/
  prepared : call.isPaged = true → exchanges = []
  /-- The reader of a paged read sends nothing when its options conflict. -/
  conflicts : ∀ reply reader settings changed, outcome = .ok reply →
    call.reader? reply = some reader → reader.configureAll settings = .ok changed →
    changed.HasConflict → changed.SendsNothing
  /-- Nothing is sent after a fault. -/
  final : ∃ fault?, EndsIn fault? (exchanges.map Exchange.fault?)

variable {call state exchanges outcome later}

/-- What a store reports refuses no call. -/
theorem refuses_of_isReported (call : TableCall) {fault : Fault} (h : fault.isReported = true) :
    call.refuses fault = false := by
  obtain ⟨hlocal, hinvalid⟩ := Fault.isLocal_of_isReported h
  rw [refuses, hlocal, hinvalid, Bool.and_false]
  rfl

/-- Only the paged reads hand out a reader. -/
theorem reader?_eq_none (h : call.isPaged = false) (reply : call.Reply) :
    call.reader? reply = none := by
  cases call with
  | query | scan | queryIndex | scanIndex => cases h
  | _ => rfl

/-- A call that is refused. -/
theorem FailsFast.of_refused {fault : Fault} (h : call.refuses fault = true) (state : σ) :
    call.FailsFast state [] (.error fault) state where
  refused _ _ _ := ⟨rfl, rfl⟩
  single _ := .inr ⟨rfl, fault, rfl, h⟩
  prepared _ := rfl
  conflicts _ _ _ _ hreply := nomatch hreply
  final := ⟨none, endsIn_nil⟩

/-- A call that is sent, and that does not end as if it had been refused. -/
theorem FailsFast.of_sent (hpaged : call.isPaged = false)
    (hsingle : call.isSingle = true → exchanges.length = 1)
    (houtcome : FailsOnly (fun fault => call.refuses fault = false) outcome)
    (hfinal : ∃ fault?, EndsIn fault? (exchanges.map Exchange.fault?)) :
    call.FailsFast state exchanges outcome later where
  refused fault hfault hrefuses := by
    rw [houtcome fault hfault] at hrefuses
    cases hrefuses
  single h := .inl (hsingle h)
  prepared h := by
    rw [hpaged] at h
    cases h
  conflicts reply reader settings changed _ hreader := by
    rw [reader?_eq_none hpaged] at hreader
    cases hreader
  final := hfinal

/-- A paged read that is prepared. -/
theorem FailsFast.of_prepared (hsingle : call.isSingle = false)
    (hconfigured : ∀ reply reader, outcome = .ok reply → call.reader? reply = some reader →
      reader.Configured) (state : σ) : call.FailsFast state [] outcome state where
  refused _ _ _ := ⟨rfl, rfl⟩
  single h := by
    rw [hsingle] at h
    cases h
  prepared _ := rfl
  conflicts reply reader settings changed hreply hreader hchanged hconflict :=
    Reader.sendsNothing_of_hasConflict
      ((hconfigured reply reader hreply hreader).configureAll hchanged).fresh hconflict
  final := ⟨none, endsIn_nil⟩

end TableCall

/-- The store reports only faults that a store can have. -/
def Store.OnlyReports (store : Store σ) : Prop :=
  ∀ {call : Call} {state later : σ} {fault : Fault},
    (store.answer call).attempt state = (.error fault, later) → fault.isReported = true

/-- Every fault among the answers is one that the store reports. -/
theorem Store.OnlyReports.reported {store : Store σ} (hstore : store.OnlyReports)
    {state later : σ} {exchanges : List Exchange} {fault : Fault}
    (hserves : store.Serves state exchanges later)
    (hfault : some fault ∈ exchanges.map Exchange.fault?) : fault.isReported = true := by
  induction hserves with
  | nil state => cases hfault
  | @cons state middle later call answer rest hanswer hrest ih =>
      rcases List.mem_cons.mp hfault with hfirst | hmore
      · cases answer with
        | ok reply => cases hfirst
        | error other =>
            cases hfirst
            exact hstore hanswer
      · exact ih hmore

/-- A fault that ends a conversation was answered in it. -/
theorem EndsIn.mem {fault : Fault} {faults : List (Option Fault)} (h : EndsIn (some fault) faults) :
    some fault ∈ faults := by
  obtain ⟨count, rfl⟩ := h
  exact List.mem_append_right _ List.mem_cons_self

namespace TableCall

variable {call : TableCall} {store : Store σ} {state : σ}

/-- There is a run of the program, and it fails fast. -/
def RunsFast (call : TableCall) (program : Program call.Reply) (store : Store σ) (state : σ) :
    Prop :=
  ∃ exchanges outcome later, Makes program store state exchanges outcome later ∧
    call.FailsFast state exchanges outcome later

/-- A call that makes a request first. -/
theorem RunsFast.of_request {request : Except Fault α}
    {next : (τ : Type) → Store τ → α → Run τ call.Reply}
    (hrequest : FailsOnly (fun fault => call.refuses fault = true) request)
    (hnext : ∀ accepted, call.RunsFast (fun τ store => next τ store accepted) store state) :
    call.RunsFast (fun τ store => Run.ofExcept request >>= next τ store) store state :=
  exists_makes_of_request (fun fault h => .of_refused (hrequest fault h) state)
    fun accepted _ => hnext accepted

/-! ### Which faults say that a call was refused -/

/-- A fault that is found locally refuses any call. -/
theorem refuses_of_isLocal {fault : Fault} (h : fault.isLocal = true) :
    call.refuses fault = true := by
  rw [refuses, h, Bool.true_or]

/-- A call that writes items is also refused by the validator. -/
theorem refuses_of_writesItems (hwrites : call.writesItems = true) {fault : Fault}
    (h : (fault.isLocal || fault.isInvalid) = true) : call.refuses fault = true := by
  rw [refuses, hwrites, Bool.true_and]
  exact h

/-- The validator found fault with an item that was read. -/
theorem refuses_of_isInvalid (hwrites : call.writesItems = false) {fault : Fault}
    (h : fault.isInvalid = true) : call.refuses fault = false := by
  cases fault with
  | invalid violations =>
      rw [refuses, hwrites, Bool.false_and]
      rfl
  | _ => cases h

/-- Asking for an answer. -/
theorem exists_makes_answer (hstore : store.OnlyReports) (sent : Call) (state : σ) :
    ∃ answer later, Makes (fun _ store => store.answer sent) store state [⟨sent, answer⟩] answer
        later ∧
      FailsOnly (fun fault => fault.isReported = true) answer := by
  rcases hanswer : (store.answer sent).attempt state with ⟨answer, later⟩
  refine ⟨answer, later, makes_answer hanswer, fun fault hfault => ?_⟩
  rw [hfault] at hanswer
  exact hstore hanswer

/-- Rounds that end so end in a fault that the store reports. -/
theorem failsOnly_orFault (hstore : store.OnlyReports) {later : σ} {exchanges : List Exchange}
    (hserves : store.Serves state exchanges later) {fault? : Option Fault}
    (hends : EndsIn fault? (exchanges.map Exchange.fault?)) (result : β) :
    FailsOnly (fun fault => fault.isReported = true) (orFault fault? result) := by
  cases fault? with
  | none => exact failsOnly_ok result
  | some fault => exact failsOnly_error (hstore.reported hserves hends.mem)

/-- Sending a batch of writes. -/
theorem exists_makes_batchWrite (hstore : store.OnlyReports) (batch : BatchWrite) (rounds : Nat)
    (state : σ) :
    ∃ exchanges outcome later,
      Makes (fun _ store => batch.send store rounds) store state exchanges outcome later ∧
      (∃ fault?, EndsIn fault? (exchanges.map Exchange.fault?)) ∧
      FailsOnly (fun fault => fault.isReported = true) outcome := by
  obtain ⟨sent, remaining, fault?, later, hmakes, hsends, -⟩ :=
    makes_writeGroups store batch.table rounds (groupsOf (maxBatchWrite - 1) batch.requests) state
  have hends := hsends.endsIn_ofWrites batch.table
  exact ⟨_, _, later, hmakes, ⟨fault?, hends⟩, failsOnly_orFault hstore hmakes.serves hends _⟩

/-- Asking for a batch of keys. -/
theorem exists_makes_batchGet (hstore : store.OnlyReports) (batch : BatchGet) (rounds : Nat)
    (state : σ) :
    ∃ exchanges outcome later,
      Makes (fun _ store => batch.send store rounds) store state exchanges outcome later ∧
      (∃ fault?, EndsIn fault? (exchanges.map Exchange.fault?)) ∧
      FailsOnly (fun fault => fault.isReported = true) outcome := by
  obtain ⟨asked, remaining, fault?, later, hmakes, hsends, -⟩ :=
    makes_readGroups store batch.read.toCall rounds (groupsOf (maxBatchGet - 1) batch.keys) state
  have hends := hsends.endsIn_ofKeys batch.read.toCall
  exact ⟨_, _, later, hmakes, ⟨fault?, hends⟩, failsOnly_orFault hstore hmakes.serves hends _⟩

/-! ### Paged reads -/

/-- The reader of a query returns all attributes, until it is told otherwise. -/
theorem eq_ofRequest_of_query {source : ReadSource} {arguments : Arguments} {reader : Reader}
    (h : source.query arguments = .ok reader) :
    ∃ request, request.read.selection = {} ∧
      reader = .ofRequest request source.validator source.incomplete := by
  obtain ⟨conditions, _, h⟩ := bind_eq_ok_iff.mp h
  obtain ⟨keyCondition, _, h⟩ := bind_eq_ok_iff.mp h
  cases h
  exact ⟨_, rfl, rfl⟩

/-- So does that of a scan. -/
theorem eq_ofRequest_of_scan {source : ReadSource} {arguments : Arguments} {reader : Reader}
    (h : source.scan arguments = .ok reader) :
    ∃ request, request.read.selection = {} ∧
      reader = .ofRequest request source.validator source.incomplete := by
  obtain ⟨conditions, _, h⟩ := bind_eq_ok_iff.mp h
  cases h
  exact ⟨_, rfl, rfl⟩

/-- A query is handed out before anything is read. -/
theorem configured_of_query {source : ReadSource} {arguments : Arguments} {reader : Reader}
    (h : source.query arguments = .ok reader) : reader.Configured := by
  obtain ⟨request, -, rfl⟩ := eq_ofRequest_of_query h
  exact .ofRequest _ _ _

theorem configured_of_scan {source : ReadSource} {arguments : Arguments} {reader : Reader}
    (h : source.scan arguments = .ok reader) : reader.Configured := by
  obtain ⟨request, -, rfl⟩ := eq_ofRequest_of_scan h
  exact .ofRequest _ _ _

/-- A call that only prepares something sends nothing, and what it prepares is still to be
configured. -/
theorem RunsFast.of_prepared (hsingle : call.isSingle = false)
    {outcome : Except Fault call.Reply}
    (hconfigured : ∀ reply reader, outcome = .ok reply → call.reader? reply = some reader →
      reader.Configured) : call.RunsFast (fun _ _ => Run.ofExcept outcome) store state :=
  ⟨[], outcome, state, makes_ofExcept outcome state, .of_prepared hsingle hconfigured state⟩

/-! ### Every call -/

section Calls

variable (table : Table) (hstore : store.OnlyReports) (rounds : Nat) (state : σ)
include hstore

/-- An item is read, and the validator sees it. -/
theorem RunsFast.of_read (hpaged : call.isPaged = false) (hwrites : call.writesItems = false)
    (sent : Call) {found : sent.Reply → Except Fault call.Reply}
    (hfound : ∀ reply, FailsOnly (fun fault => fault.isInvalid = true) (found reply)) :
    call.RunsFast (fun _ store => store.answer sent >>= fun reply => Run.ofExcept (found reply))
      store state := by
  obtain ⟨answer, later, hmakes, hanswer⟩ := exists_makes_answer hstore sent state
  refine ⟨_, _, later, hmakes.andThen found,
    .of_sent hpaged (fun _ => rfl) (FailsOnly.bind ?_ fun reply => ?_) ⟨_, endsIn_fault? _⟩⟩
  · exact hanswer.mono fun _ => refuses_of_isReported _
  · exact (hfound reply).mono fun _ => refuses_of_isInvalid hwrites

/-- One item is read in at most one exchange. -/
theorem runsFast_get (key : Arguments) (consistent : Bool) :
    RunsFast (.get key consistent) (run table rounds _) store state :=
  .of_request ((table.refusable_getRequest key consistent).mono fun _ => refuses_of_isLocal)
    fun request => .of_read hstore state rfl rfl request.toCall (table.failsOnly_itemFound false)

/-- One item is changed in at most one exchange. -/
theorem runsFast_update (arguments conditions : Arguments) :
    RunsFast (.update arguments conditions) (run table rounds _) store state :=
  .of_request ((table.refusable_updateRequest arguments conditions).mono
    fun _ => refuses_of_isLocal)
    fun request => .of_read hstore state rfl rfl request.toCall (table.failsOnly_itemFound true)

/-- A put is refused before it is sent or is sent once. -/
theorem runsFast_put (plain : Plain) :
    RunsFast (.put plain) (run table rounds _) store state := by
  refine .of_request ((table.checked_putRequest plain).mono
    fun _ => refuses_of_writesItems rfl) fun request => ?_
  obtain ⟨answer, later, hmakes, hanswer⟩ := exists_makes_answer hstore request.toCall state
  exact ⟨_, _, later, hmakes, .of_sent rfl (fun _ => rfl)
    (hanswer.mono fun _ => refuses_of_isReported _) ⟨_, endsIn_fault? _⟩⟩

/-- The fault that takes another meaning is not one of those that refuse a call. -/
theorem runsFast_putUnique (plain : Plain) :
    RunsFast (.putUnique plain) (run table rounds _) store state := by
  refine .of_request ((table.checked_putUniqueRequest plain).mono
    fun _ => refuses_of_writesItems rfl) fun request => ?_
  obtain ⟨answer, later, hmakes, hanswer⟩ := exists_makes_answer hstore request.toCall state
  refine ⟨_, _, later, hmakes.mapFault Table.asHashKeyExists,
    .of_sent rfl (fun _ => rfl) (fun fault hfault => ?_) ⟨_, endsIn_fault? _⟩⟩
  cases answer with
  | ok reply => cases hfault
  | error reported =>
      have hreported := hanswer reported rfl
      cases hfault
      cases reported with
      | conditionFailed reason => rfl
      | throttled reason | unreachable reason => exact refuses_of_isReported _ hreported
      | _ => cases hreported

/-- A delete is refused before it is sent or is sent once. -/
theorem runsFast_delete (key conditions : Arguments) :
    RunsFast (.delete key conditions) (run table rounds _) store state := by
  refine .of_request ((table.refusable_deleteRequest key conditions).mono
    fun _ => refuses_of_isLocal) fun request => ?_
  obtain ⟨answer, later, hmakes, hanswer⟩ := exists_makes_answer hstore request.toCall state
  exact ⟨_, _, later, hmakes, .of_sent rfl (fun _ => rfl)
    (hanswer.mono fun _ => refuses_of_isReported _) ⟨_, endsIn_fault? _⟩⟩

/-- A batch of keys is refused as a whole before the first of its calls. -/
theorem runsFast_getBatch (keys : List Arguments) (consistent : Bool) (attributes : List String) :
    RunsFast (.getBatch keys consistent attributes) (run table rounds _) store state := by
  refine .of_request ((table.refusable_getBatchRequest keys consistent attributes).mono
    fun _ => refuses_of_isLocal) fun batch => ?_
  obtain ⟨exchanges, outcome, later, hmakes, hends, hreported⟩ :=
    exists_makes_batchGet hstore batch rounds state
  have hchecked (found : BatchFound) : FailsOnly (fun fault => fault.isInvalid = true)
      (found.items.mapM fun item =>
        table.validator.check item !batch.read.selection.isEmpty) :=
    failsOnly_mapM (fun item => table.validator.failsOnly_check item _) found.items
  simp only [Run.ofExcept_bind_pure]
  refine ⟨exchanges, _, later, hmakes.andThen _, .of_sent rfl nofun ?_ hends⟩
  refine FailsOnly.bind (hreported.mono fun _ => refuses_of_isReported _) fun found => ?_
  exact ((hchecked found).mono fun _ => refuses_of_isInvalid rfl).map _

/-- A batch of puts is refused as a whole: one item that does not pass keeps back all of them. -/
theorem runsFast_putBatch (items : List Plain) :
    RunsFast (.putBatch items) (run table rounds _) store state := by
  refine .of_request ((table.checked_putBatchRequest items).mono
    fun _ => refuses_of_writesItems rfl) fun batch => ?_
  obtain ⟨exchanges, outcome, later, hmakes, hends, hreported⟩ :=
    exists_makes_batchWrite hstore batch rounds state
  exact ⟨exchanges, outcome, later, hmakes,
    .of_sent rfl nofun (hreported.mono fun _ => refuses_of_isReported _) hends⟩

/-- A batch of deletes is refused as a whole for one of its keys. -/
theorem runsFast_deleteBatch (keys : List Arguments) :
    RunsFast (.deleteBatch keys) (run table rounds _) store state := by
  refine .of_request ((table.refusable_deleteBatchRequest keys).mono
    fun _ => refuses_of_isLocal) fun batch => ?_
  obtain ⟨exchanges, outcome, later, hmakes, hends, hreported⟩ :=
    exists_makes_batchWrite hstore batch rounds state
  exact ⟨exchanges, outcome, later, hmakes,
    .of_sent rfl nofun (hreported.mono fun _ => refuses_of_isReported _) hends⟩

end Calls

/-- **Calls fail fast**: on every input, with any validator, and whatever the store
answers. -/
theorem failsFast (table : Table) (rounds : Nat) (call : TableCall) {store : Store σ}
    (hstore : store.OnlyReports) (state : σ) :
    ∃ exchanges outcome later,
      Makes (call.run table rounds) store state exchanges outcome later ∧
      call.FailsFast state exchanges outcome later := by
  cases call with
  | get key consistent => exact runsFast_get table hstore rounds state key consistent
  | getBatch keys consistent attributes =>
      exact runsFast_getBatch table hstore rounds state keys consistent attributes
  | put plain => exact runsFast_put table hstore rounds state plain
  | putUnique plain => exact runsFast_putUnique table hstore rounds state plain
  | putBatch items => exact runsFast_putBatch table hstore rounds state items
  | deleteBatch keys => exact runsFast_deleteBatch table hstore rounds state keys
  | update arguments conditions =>
      exact runsFast_update table hstore rounds state arguments conditions
  | delete key conditions => exact runsFast_delete table hstore rounds state key conditions
  | query arguments =>
      refine RunsFast.of_prepared rfl fun reply reader hreply hreader => ?_
      cases hreader
      exact configured_of_query hreply
  | scan arguments =>
      refine RunsFast.of_prepared rfl fun reply reader hreply hreader => ?_
      cases hreader
      exact configured_of_scan hreply
  | index name =>
      refine RunsFast.of_prepared rfl fun reply reader hreply hreader => ?_
      cases hreader
  | queryIndex name arguments =>
      refine RunsFast.of_prepared rfl fun reply reader hreply hreader => ?_
      cases hreader
      obtain ⟨index, _, hquery⟩ := bind_eq_ok_iff.mp hreply
      exact configured_of_query hquery
  | scanIndex name arguments =>
      refine RunsFast.of_prepared rfl fun reply reader hreply hreader => ?_
      cases hreader
      obtain ⟨index, _, hscan⟩ := bind_eq_ok_iff.mp hreply
      exact configured_of_scan hscan

/-- The store that always asks to slow down. -/
def busy : Store Unit where
  answer _ := throw (.throttled "busy")

/-- A store that is always busy reports nothing but that. -/
theorem onlyReports_busy : busy.OnlyReports := by
  intro call state later fault hanswer
  cases hanswer
  rfl

/-- A table without a validator. -/
def ledger : Table where
  declaration := { name := "ledger", schema := { hashKey := "id" } }

/-- A full group of items, and one behind it that has no form. -/
def lastFails : List Plain :=
  List.replicate maxBatchWrite (.fields [("id", .text "a")]) ++ [.failing "no form"]

/-- The last item of a batch has no form in a table, so none of the others is sent. -/
theorem failsFast_lastFails :
    ledger.putBatchRequest lastFails = .error (.unserializable "no form") ∧
      ∃ exchanges outcome later,
        Makes ((TableCall.putBatch lastFails).run ledger maxBatchWrite) busy () exchanges outcome
          later ∧
        (TableCall.putBatch lastFails).FailsFast () exchanges outcome later :=
  ⟨rfl, failsFast ledger maxBatchWrite (.putBatch lastFails) onlyReports_busy ()⟩

end TableCall

end KeywordTable
