import KeywordTable.KeySchema
import KeywordTable.Proofs.Batches
import Mathlib.Data.List.Pairwise
import Mathlib.Logic.Function.Basic

/-!
# What a batch of writes does

A table holds at most one item at each **address**, which is what an item or a key has in
the key attributes.  A write puts something at its address, so the order of writes to
different addresses does not matter (`Contents.after_perm`).

The store may carry out any part of a call, in any order, and leave the others over, but
it has to carry out something (`Store.AppliesParts`); and a call may fail at any time.  The
main result is `BatchWrite.carriedOut`.  Every request is carried out **once**, and a group
only when the groups before it are done.  If no group writes to an address twice, the table
ends up as if the requests had been carried out in their order, also where a later group
writes to an address again.  When a call fails, nothing is sent any more.
-/

namespace KeywordTable

variable {σ : Type}

/-- What an item or a key has in the key attributes. -/
def KeySchema.address (schema : KeySchema) (fields : Fields Value) : List (Option Value) :=
  (schema.hashKey :: schema.rangeKey.toList).map fun name => fields.lookup name

namespace WriteRequest

/-- The fields that say which item is written. -/
def fields : WriteRequest → Item
  | .put item => item
  | .delete key => key

/-- What is stored then. -/
def stored : WriteRequest → Option Item
  | .put item => some item
  | .delete _ => none

/-- The address that is written to. -/
def address (schema : KeySchema) (request : WriteRequest) : List (Option Value) :=
  schema.address request.fields

end WriteRequest

/-- What a table holds at each address. -/
abbrev Contents := List (Option Value) → Option Item

namespace Contents

variable (schema : KeySchema)

/-- The contents after a write. -/
def write (contents : Contents) (request : WriteRequest) : Contents :=
  Function.update contents (request.address schema) request.stored

/-- The contents after writes, one after the other. -/
def after (contents : Contents) (requests : List WriteRequest) : Contents :=
  requests.foldl (write schema) contents

/-- Writes are applied one list after the other. -/
theorem after_append (contents : Contents) (requests more : List WriteRequest) :
    contents.after schema (requests ++ more) = (contents.after schema requests).after schema more :=
  List.foldl_append

/-- The requests write to different addresses. -/
abbrev Distinct (requests : List WriteRequest) : Prop :=
  requests.Pairwise fun first second => first.address schema ≠ second.address schema

/-- **The order of writes to different addresses does not matter.** -/
theorem after_perm {requests requests' : List WriteRequest} (hdistinct : Distinct schema requests)
    (hperm : requests.Perm requests') (contents : Contents) :
    contents.after schema requests = contents.after schema requests' := by
  refine hperm.foldl_eq' (fun first hfirst second hsecond contents => ?_) contents
  by_cases heq : first = second
  · rw [heq]
  · have hsymm : Std.Symm fun first second : WriteRequest =>
        first.address schema ≠ second.address schema := ⟨fun _ _ => Ne.symm⟩
    exact Function.update_comm (hdistinct.forall hfirst hsecond heq) _ _ _

/-- Groups that are done one after the other, each in any order. -/
theorem after_underway {groups : List (List WriteRequest)} {applied : List WriteRequest}
    (hdistinct : ∀ group ∈ groups, Distinct schema group) (h : Underway groups applied [])
    (contents : Contents) :
    contents.after schema applied = contents.after schema groups.flatten := by
  generalize hnone : ([] : List (List WriteRequest)) = remaining at h
  induction h generalizing contents with
  | nil => rfl
  | @done group part applied groups remaining hpart hmore ih =>
      have hgroup := after_perm schema (hdistinct group List.mem_cons_self) hpart.symm contents
      rw [after_append, List.flatten_cons, after_append, hgroup]
      exact ih (fun group hmem => hdistinct group (List.mem_cons_of_mem _ hmem)) _ hnone
  | partway groups hpart => cases hnone

end Contents

/-! ### The store -/

/-- How a table is seen in the state of a store: what it holds, and the writes that were
carried out, oldest first. -/
structure TableView (σ : Type) where
  contents : σ → Contents
  written : σ → List WriteRequest

/-- Between two states these writes are carried out, in this order, and no others. -/
structure TableView.Applies (view : TableView σ) (schema : KeySchema) (state : σ)
    (applied : List WriteRequest) (later : σ) : Prop where
  written : view.written later = view.written state ++ applied
  contents : view.contents later = (view.contents state).after schema applied

/-- A call that succeeds carries out some of its writes and leaves over exactly the others;
one that fails carries out any part. -/
structure Store.AppliesParts (store : Store σ) (view : TableView σ) (schema : KeySchema)
    (table : String) : Prop where
  answers {state later : σ} {submitted unprocessed : List WriteRequest} (hne : submitted ≠ [])
    (hanswer : (store.answer (.batchWrite table submitted)).attempt state =
      (.ok unprocessed, later)) :
    ∃ applied, applied ≠ [] ∧ (applied ++ unprocessed).Perm submitted ∧
      view.Applies schema state applied later
  fails {state later : σ} {submitted : List WriteRequest} {fault : Fault} (hne : submitted ≠ [])
    (hanswer : (store.answer (.batchWrite table submitted)).attempt state =
      (.error fault, later)) :
    ∃ applied, applied.Subperm submitted ∧ view.Applies schema state applied later

section Store

variable {view : TableView σ} {schema : KeySchema}

/-- No writes leave a table as it is. -/
theorem TableView.applies_nil (view : TableView σ) (schema : KeySchema) (state : σ) :
    view.Applies schema state [] state :=
  ⟨(List.append_nil _).symm, rfl⟩

/-- Writes apply in two parts if each part applies. -/
theorem TableView.Applies.append {state middle later : σ} {applied more : List WriteRequest}
    (h : view.Applies schema state applied middle) (hmore : view.Applies schema middle more later) :
    view.Applies schema state (applied ++ more) later where
  written := by rw [hmore.written, h.written, List.append_assoc]
  contents := by rw [hmore.contents, h.contents, Contents.after_append]

variable {store : Store σ} {table : String}

/-- Rounds that such a store serves do something each. -/
theorem Store.AppliesParts.works (hstore : store.AppliesParts view schema table)
    {rounds : List (Round WriteRequest (List WriteRequest))} {state later : σ}
    (hserves : store.Serves state (rounds.map (Round.ofWrites table)) later)
    (hne : ∀ round ∈ rounds, round.submitted ≠ []) :
    ∃ works, List.Forall₂ (Does id) works rounds ∧
      view.Applies schema state works.flatten later := by
  induction rounds generalizing state with
  | nil =>
      cases hserves
      exact ⟨[], .nil, view.applies_nil schema _⟩
  | cons round rounds ih =>
      obtain ⟨submitted, answer⟩ := round
      obtain _ | ⟨hanswer, hrest⟩ := hserves
      have hsubmitted := hne _ List.mem_cons_self
      obtain ⟨works, hworks, hmore⟩ :=
        ih hrest fun round hround => hne round (List.mem_cons_of_mem _ hround)
      cases answer with
      | ok unprocessed =>
          obtain ⟨work, hwork, hperm, happlies⟩ := hstore.answers hsubmitted hanswer
          exact ⟨work :: works, .cons ⟨hwork, hperm⟩ hworks, happlies.append hmore⟩
      | error fault =>
          obtain ⟨work, hsub, happlies⟩ := hstore.fails hsubmitted hanswer
          exact ⟨work :: works, .cons hsub hworks, happlies.append hmore⟩

/-- What was carried out after rounds that the store serves. -/
theorem Store.AppliesParts.underway (hstore : store.AppliesParts view schema table)
    {rounds : List (Round WriteRequest (List WriteRequest))} {state later : σ}
    {groups remaining : List (List WriteRequest)} {fault? : Option Fault}
    (hserves : store.Serves state (rounds.map (Round.ofWrites table)) later)
    (hsends : SendsGroups id groups rounds remaining fault?) :
    (∀ round ∈ rounds, ∃ work, Does id work round) ∧
      ∃ applied missing, view.Applies schema state applied later ∧
        Underway groups applied missing ∧ (fault? = none → missing = remaining) ∧
        (fault? ≠ none → missing ≠ []) := by
  obtain ⟨works, hworks, happlies⟩ := hstore.works hserves hsends.submitted_ne_nil
  obtain ⟨missing, hunderway, hmissing⟩ := hsends.underway hworks
  exact ⟨exists_does hworks, works.flatten, missing, happlies, hunderway, hmissing⟩

end Store

namespace BatchWrite

/-- The groups that are sent one after the other. -/
def groups (batch : BatchWrite) : List (List WriteRequest) :=
  groupsOf (maxBatchWrite - 1) batch.requests

variable (batch : BatchWrite) (store : Store σ) (view : TableView σ) (schema : KeySchema)
  (state : σ) (exchanges : List Exchange) (outcome : Except Fault (List WriteRequest)) (later : σ)

/-- Every request was carried out once, and no call failed. -/
structure Done : Prop where
  result : outcome = .ok []
  answers : EndsIn none (exchanges.map Exchange.fault?)
  once : ∃ applied, applied.Perm batch.requests ∧ view.Applies schema state applied later
  contents : view.contents later = (view.contents state).after schema batch.requests

/-- The last call failed, and its fault is handed back.  Carried out are some groups and a
part of the next one. -/
structure Stopped (fault : Fault) : Prop where
  result : outcome = .error fault
  answers : EndsIn (some fault) (exchanges.map Exchange.fault?)
  part : ∃ applied rest behind, view.Applies schema state applied later ∧
    Underway batch.groups applied (rest :: behind)

/-- What sending a batch comes to.  Each call submits what remains of a group, when the
rest of that group and the groups before it are carried out and nothing else is. -/
structure CarriedOut : Prop where
  calls : ∀ before exchange after, exchanges = before ++ exchange :: after →
    ∃ submitted behind applied middle, exchange.call = .batchWrite batch.table submitted ∧
      1 ≤ submitted.length ∧ submitted.length ≤ maxBatchWrite ∧
      store.Serves state before middle ∧ view.Applies schema state applied middle ∧
      Underway batch.groups applied (submitted :: behind)
  few : exchanges.length ≤ batch.requests.length
  ends : batch.Done view schema state exchanges outcome later ∨
    ∃ fault, batch.Stopped view schema state exchanges outcome later fault

variable {batch store view schema}

/-- **A batch of writes has the effect of its requests in order**, however the store postpones
them, unless a call fails.  With this many rounds no group is given up, since it runs out of
requests first. -/
theorem carriedOut (hstore : store.AppliesParts view schema batch.table)
    (hdistinct : ∀ i j, (hlt : i < j) → (hj : j < batch.requests.length) →
      i / maxBatchWrite = j / maxBatchWrite →
      batch.requests[i].address schema ≠ batch.requests[j].address schema)
    {rounds : Nat} (hrounds : maxBatchWrite ≤ rounds) (state : σ) :
    ∃ exchanges outcome later,
      Makes (fun _ store => batch.send store rounds) store state exchanges outcome later ∧
      batch.CarriedOut store view schema state exchanges outcome later := by
  obtain ⟨sent, remaining, fault?, later, hmakes, hsends, hbound⟩ :=
    makes_writeGroups store batch.table rounds batch.groups state
  obtain ⟨hdoes, applied, missing, happlies, hunderway, hmissing, hstopped⟩ :=
    hstore.underway hmakes.serves hsends
  have hlength : ∀ group ∈ batch.groups, group.length ≤ maxBatchWrite :=
    fun group hmem => (length_of_mem_groupsOf hmem).2
  have hflatten : batch.groups.flatten = batch.requests := flatten_groupsOf _ _
  refine ⟨_, _, later, hmakes, ?calls, ?few, ?ends⟩
  case calls =>
      intro before exchange after hcut
      obtain ⟨front, back, rfl, rfl, hback⟩ := List.map_eq_append_iff.mp hcut
      obtain ⟨round, behind, rfl, rfl, rfl⟩ := List.map_eq_cons_iff.mp hback
      obtain ⟨behind, hfront, hne⟩ := hsends.split
      rw [List.map_append] at hmakes
      obtain ⟨middle, hserves, -⟩ := Store.serves_append.mp hmakes.serves
      obtain ⟨-, applied, missing, happlies, hunderway, hmissing, -⟩ :=
        hstore.underway hserves hfront
      rw [hmissing rfl] at hunderway
      exact ⟨round.submitted, behind, applied, middle, rfl, List.length_pos_iff.mpr hne,
        hunderway.length_le hlength, hserves, happlies, hunderway⟩
  case few =>
      rw [List.length_map, ← hflatten]
      exact hsends.length_le hdoes
  case ends =>
      have hfaults := hsends.endsIn_ofWrites batch.table
      cases fault? with
      | some fault =>
          obtain ⟨rest, behind, rfl⟩ := List.exists_cons_of_ne_nil (hstopped nofun)
          exact .inr ⟨fault, rfl, hfaults, applied, rest, behind, happlies, hunderway⟩
      | none =>
          have hnone : remaining = [] :=
            (hbound rfl).resolve_right (not_exhausted (fun group hmem =>
              Nat.le_trans (hlength group hmem) hrounds) hdoes)
          rw [hmissing rfl, hnone] at hunderway
          refine .inl ⟨?_, hfaults, ⟨applied, ?_, happlies⟩, ?_⟩
          · rw [hnone]
            rfl
          · rw [← hflatten]
            exact hunderway.perm
          · have hgroups : ∀ group ∈ batch.groups, Contents.Distinct schema group :=
              fun group hmem => pairwise_of_mem_groupsOf hdistinct hmem
            rw [happlies.contents, Contents.after_underway schema hgroups hunderway, hflatten]

/-! ### A store that postpones as much as it can -/

/-- The store that carries out one write a call and leaves the others over in reverse. -/
def oneAtATime (schema : KeySchema) : Store (Contents × List WriteRequest) where
  answer
    | .batchWrite _ (request :: others) => fun (contents, written) =>
      (.ok others.reverse, contents.write schema request, written ++ [request])
    | _ => throw (.unreachable "the store only writes")

/-- A store that gets to one write at a time applies a part of each call. -/
theorem appliesParts_oneAtATime (schema : KeySchema) (table : String) :
    (oneAtATime schema).AppliesParts ⟨Prod.fst, Prod.snd⟩ schema table where
  answers {state later submitted unprocessed} hne hanswer := by
    cases submitted with
    | nil => exact absurd rfl hne
    | cons request others =>
        cases hanswer
        exact ⟨[request], List.cons_ne_nil _ _, (List.reverse_perm others).cons request, rfl, rfl⟩
  fails {state later submitted fault} hne hanswer := by
    cases submitted with
    | nil => exact absurd rfl hne
    | cons request others => cases hanswer

/-- An item with a key of this length. -/
def numbered (length : Nat) : Item := [("id", .text (String.ofList (List.replicate length 'a')))]

/-- A batch that fills a group and then deletes the first item again. -/
def rewriting : BatchWrite where
  table := "items"
  requests := (List.range maxBatchWrite).map (fun n => .put (numbered n)) ++ [.delete (numbered 0)]

/-- A batch that fills a group and then deletes the first item again is carried out by a store
that gets to one write at a time. -/
theorem carriedOut_rewriting :
    ∃ exchanges outcome later,
      Makes (fun _ store => rewriting.send store maxBatchWrite) (oneAtATime ⟨"id", none⟩)
        (fun _ => none, []) exchanges outcome later ∧
      rewriting.CarriedOut (oneAtATime ⟨"id", none⟩) ⟨Prod.fst, Prod.snd⟩ ⟨"id", none⟩
        (fun _ => none, []) exchanges outcome later := by
  refine carriedOut (appliesParts_oneAtATime _ _) ?_ (Nat.le_refl _) _
  intro i j hlt hj hgroup heq
  have hlength : rewriting.requests.length = maxBatchWrite + 1 := by simp [rewriting]
  have hbelow : j < maxBatchWrite := by
    rw [maxBatchWrite] at hgroup hlength ⊢
    omega
  have hput : ∀ n, n < maxBatchWrite → (hn : n < rewriting.requests.length) →
      rewriting.requests[n] = .put (numbered n) := by
    intro n hn _
    simp [rewriting, hn]
  rw [hput i (by omega), hput j hbelow] at heq
  have htexts : String.ofList (List.replicate i 'a') = String.ofList (List.replicate j 'a') := by
    simpa [WriteRequest.address, WriteRequest.fields, KeySchema.address, numbered] using heq
  have hkeys := congrArg List.length (String.ofList_injective htexts)
  rw [List.length_replicate, List.length_replicate] at hkeys
  omega

end BatchWrite

end KeywordTable
