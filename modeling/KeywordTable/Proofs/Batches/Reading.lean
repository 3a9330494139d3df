import KeywordTable.Proofs.Batches

/-!
# What a batch of keys finds

The store may answer for any part of the keys of a call and leave the others over, but it
has to answer for some (`Store.FindsParts`); what it finds for a key depends on the key and
on how it is read, and on nothing else.  A call may also fail at any time.

The main result is `BatchGet.answered`.  The items handed back are those found for the
keys, each as often as its key was asked for, so they are the same for every such store up
to their order.  When a call fails, nothing is asked any more.
-/

namespace KeywordTable

variable {σ : Type}

/-- A call that succeeds hands back what is found for some of its keys, and leaves over
exactly the others. -/
def Store.FindsParts (store : Store σ) (found : ItemReadCall → Item → Option Item) : Prop :=
  ∀ {state later : σ} {read : ItemReadCall} {submitted : List Item} {answer : BatchFound},
    submitted ≠ [] →
    (store.answer (.batchGet submitted read)).attempt state = (.ok answer, later) →
    ∃ answered, answered ≠ [] ∧ (answered ++ answer.unprocessed).Perm submitted ∧
      answer.items.Perm (answered.filterMap (found read))

/-- Rounds that such a store serves answer for some keys each. -/
theorem Store.FindsParts.works {store : Store σ} {found : ItemReadCall → Item → Option Item}
    (hstore : store.FindsParts found) {read : ItemReadCall}
    {rounds : List (Round Item BatchFound)} {state later : σ}
    (hserves : store.Serves state (rounds.map (Round.ofKeys read)) later)
    (hne : ∀ round ∈ rounds, round.submitted ≠ []) :
    ∃ works, List.Forall₂ (Does BatchFound.unprocessed) works rounds ∧
      (rounds.flatMap Round.items).Perm (works.flatten.filterMap (found read)) := by
  induction rounds generalizing state with
  | nil => exact ⟨[], .nil, .refl _⟩
  | cons round rounds ih =>
      obtain ⟨submitted, answer⟩ := round
      obtain _ | ⟨hanswer, hrest⟩ := hserves
      obtain ⟨works, hworks, hitems⟩ :=
        ih hrest fun round hround => hne round (List.mem_cons_of_mem _ hround)
      cases answer with
      | ok answer =>
          obtain ⟨work, hwork, hperm, hfound⟩ := hstore (hne _ List.mem_cons_self) hanswer
          refine ⟨work :: works, .cons ⟨hwork, hperm⟩ hworks, ?_⟩
          rw [List.flatMap_cons, List.flatten_cons, List.filterMap_append]
          exact hfound.append hitems
      | error fault => exact ⟨[] :: works, .cons List.nil_subperm hworks, hitems⟩

namespace BatchGet

/-- The groups that are asked for one after the other. -/
def groups (batch : BatchGet) : List (List Item) := groupsOf (maxBatchGet - 1) batch.keys

variable (batch : BatchGet) (found : ItemReadCall → Item → Option Item)
  (exchanges : List Exchange) (outcome : Except Fault BatchFound)

/-- Every key was answered for, and no call failed. -/
structure Done : Prop where
  result : ∃ items, outcome = .ok ⟨items, []⟩ ∧
    items.Perm (batch.keys.filterMap (found batch.read.toCall))
  answers : EndsIn none (exchanges.map Exchange.fault?)

/-- The last call failed, and its fault is handed back. -/
structure Stopped (fault : Fault) : Prop where
  result : outcome = .error fault
  answers : EndsIn (some fault) (exchanges.map Exchange.fault?)

/-- What asking for a batch comes to.  All calls read in the same way. -/
structure Answered : Prop where
  calls : ∀ exchange ∈ exchanges, ∃ submitted,
    exchange.call = .batchGet submitted batch.read.toCall ∧
      1 ≤ submitted.length ∧ submitted.length ≤ maxBatchGet
  few : exchanges.length ≤ batch.keys.length
  ends : batch.Done found exchanges outcome ∨ ∃ fault, Stopped exchanges outcome fault

variable {batch found}

/-- **A batch of keys is answered for every key once**, however the store postpones them,
unless a call fails.  With this many rounds no group is given up. -/
theorem answered {store : Store σ} (hstore : store.FindsParts found) {rounds : Nat}
    (hrounds : maxBatchGet ≤ rounds) (state : σ) :
    ∃ exchanges outcome later,
      Makes (fun _ store => batch.send store rounds) store state exchanges outcome later ∧
      batch.Answered found exchanges outcome := by
  obtain ⟨asked, remaining, fault?, later, hmakes, hsends, hbound⟩ :=
    makes_readGroups store batch.read.toCall rounds batch.groups state
  obtain ⟨works, hworks, hitems⟩ := hstore.works hmakes.serves hsends.submitted_ne_nil
  have hlength : ∀ group ∈ batch.groups, group.length ≤ maxBatchGet :=
    fun group hmem => (length_of_mem_groupsOf hmem).2
  have hflatten : batch.groups.flatten = batch.keys := flatten_groupsOf _ _
  refine ⟨_, _, later, hmakes, ?calls, ?few, ?ends⟩
  case calls =>
      intro exchange hmem
      obtain ⟨round, hround, rfl⟩ := List.mem_map.mp hmem
      exact ⟨round.submitted, rfl, hsends.length_submitted hworks hlength round hround⟩
  case few =>
      rw [List.length_map, ← hflatten]
      exact hsends.length_le (exists_does hworks)
  case ends =>
      have hfaults := hsends.endsIn_ofKeys batch.read.toCall
      cases fault? with
      | some fault => exact .inr ⟨fault, rfl, hfaults⟩
      | none =>
          have hnone : remaining = [] :=
            (hbound rfl).resolve_right (not_exhausted (fun group hmem =>
              Nat.le_trans (hlength group hmem) hrounds) (exists_does hworks))
          obtain ⟨missing, hunderway, hmissing, -⟩ := hsends.underway hworks
          rw [hmissing rfl, hnone] at hunderway
          refine .inl ⟨⟨_, ?_, hitems.trans ?_⟩, hfaults⟩
          · rw [hnone]
            rfl
          · rw [← hflatten]
            exact hunderway.perm.filterMap _

/-! ### A store that postpones as much as it can -/

/-- The store that answers for one key a call and leaves the others over in reverse. -/
def oneAtATime (found : ItemReadCall → Item → Option Item) : Store Unit where
  answer
    | .batchGet (key :: others) read => return ⟨(found read key).toList, others.reverse⟩
    | _ => throw (.unreachable "the store only reads")

/-- A store that reads one key at a time finds a part of each call. -/
theorem findsParts_oneAtATime (found : ItemReadCall → Item → Option Item) :
    (oneAtATime found).FindsParts found := by
  intro state later read submitted answer hne hanswer
  cases submitted with
  | nil => exact absurd rfl hne
  | cons key others =>
      cases hanswer
      refine ⟨[key], List.cons_ne_nil _ _, (List.reverse_perm others).cons key, ?_⟩
      cases hfound : found read key with
      | none | some item => simp [hfound]

/-- A batch of two groups that asks for two keys again and again. -/
def repeating : BatchGet where
  keys := (List.range (maxBatchGet + 1)).map fun n => [("id", .number (toString (n % 2)))]
  read := { table := "items" }

/-- A key that comes twice is read twice, in calls that each get to one of the keys. -/
theorem answered_repeating :
    maxBatchGet ≤ maxBatchGet ∧
      ∃ exchanges outcome later,
        Makes (fun _ store => repeating.send store maxBatchGet) (oneAtATime fun _ key => some key)
          () exchanges outcome later ∧
        repeating.Answered (fun _ key => some key) exchanges outcome :=
  ⟨Nat.le_refl _, answered (findsParts_oneAtATime _) (Nat.le_refl _) ()⟩

end BatchGet

end KeywordTable
