import KeywordTable.Proofs.Paging.Chain
import KeywordTable.Proofs.Paging.Delivery

/-!
# Resuming a failed read

When a page fails after others were read, the reader still knows where the last of these
ended.  `again` makes a reader that first asks for the page that failed, and what that
reader shows is what the failed one would have shown.

What would have happened is what happens against `Store.repeating`: the answers to the
pages that were read are repeated, and from then on any store answers.  The main result,
`resumes_after_fault`, holds for every such store.
-/

namespace KeywordTable

variable {σ : Type}

open Event

/-- The store that repeats the answers of some exchanges, as long as it is asked for the
same, and then answers like another. -/
def Store.repeating (store : Store σ) : Store (List Exchange × σ) where
  answer call := fun (exchanges, state) =>
    let answerNow : Except Fault call.Reply × List Exchange × σ :=
      let (answer, state) := store.answer call state
      (answer, [], state)
    match exchanges with
    | [] => answerNow
    | ⟨past, answer⟩ :: rest => if h : past = call then (h ▸ answer, rest, state) else answerNow

/-- A store that repeats what was answered serves it. -/
theorem Store.serves_repeating (store : Store σ) (state : σ) (exchanges : List Exchange) :
    store.repeating.Serves (exchanges, state) exchanges ([], state) := by
  induction exchanges with
  | nil => exact .nil ([], state)
  | cons exchange rest ih =>
      have hanswer : (store.repeating.answer exchange.call).attempt (exchange :: rest, state) =
          (exchange.answer, rest, state) := by
        simp [Store.repeating, Run.attempt]
      exact .cons hanswer ih

/-- When all was repeated, the store itself answers. -/
theorem Store.repeating_answer_nil (store : Store σ) (state : σ) (call : Call) :
    (store.repeating.answer call).attempt ([], state) =
      (((store.answer call).attempt state).1, [], ((store.answer call).attempt state).2) := rfl

/-- When nothing is left to repeat, the other store answers. -/
theorem Store.serves_repeating_nil {store : Store σ} {state : σ} {exchanges : List Exchange}
    {later : List Exchange × σ} :
    store.repeating.Serves ([], state) exchanges later ↔
      ∃ after, later = ([], after) ∧ store.Serves state exchanges after := by
  induction exchanges generalizing state with
  | nil =>
      constructor
      · rintro ⟨⟩
        exact ⟨state, rfl, .nil state⟩
      · rintro ⟨after, rfl, ⟨⟩⟩
        exact .nil ([], state)
  | cons exchange rest ih =>
      constructor
      · rintro (_ | ⟨hanswer, hrest⟩)
        rw [Store.repeating_answer_nil] at hanswer
        obtain ⟨rfl, rfl⟩ := Prod.mk.inj hanswer
        obtain ⟨after, rfl, hserves⟩ := ih.mp hrest
        exact ⟨after, rfl, .cons rfl hserves⟩
      · rintro ⟨after, rfl, _ | ⟨hanswer, hrest⟩⟩
        refine .cons ?_ (ih.mpr ⟨after, rfl, hrest⟩)
        rw [Store.repeating_answer_nil, hanswer]

/-- What a store serves leads to one state. -/
theorem Store.Serves.unique {store : Store σ} {state later later' : σ}
    {exchanges : List Exchange} (h : store.Serves state exchanges later)
    (h' : store.Serves state exchanges later') : later' = later := by
  induction h with
  | nil state =>
      cases h'
      rfl
  | cons hanswer hrest ih =>
      cases h' with
      | cons hanswer' hrest' =>
          obtain ⟨-, rfl⟩ := Prod.mk.inj (hanswer.symm.trans hanswer')
          exact ih hrest'

namespace Reader

variable {start reader middle bound left : Reader} {before events : List Event}

/-- What is known of a reader that failed after it had read pages. -/
structure Resumes (start left : Reader) (before : List Event) (failed : Exchange) (key : Item)
    (fresh : Reader) : Prop where
  /-- The key is where the last page that was read ended. -/
  token : ∃ page, (pagesRead before).getLast? = some page ∧ page.last = some key
  lastKey : left.lastKey = some key
  again : left.again = .ok fresh
  /-- The new reader first asks for the page that failed. -/
  request : fresh.FirstMakes failed.call
  /-- What is seen of it comes after what was seen before the failure if, instead of the
  failure, the store answers as it answers now. -/
  resumes : ∀ {τ : Type} (store : Store τ) (state : τ) (events : List Event),
    (∃ last later, Shows store.repeating start (Event.exchanges before, state) (before ++ events)
      last later) ↔ ∃ last later, Shows store fresh state events last later

/-- The answers before are repeated, and then the reader goes on from where it was. -/
theorem shows_repeating_iff (hbefore : Steps start before middle) (store : Store σ) (state : σ) :
    (∃ last later, Shows store.repeating start (Event.exchanges before, state) (before ++ events)
      last later) ↔ ∃ last later, Shows store middle state events last later := by
  have hrepeated := store.serves_repeating state (Event.exchanges before)
  constructor
  · rintro ⟨last, later, hshows⟩
    obtain ⟨hsteps, hserves⟩ := shows_iff.mp hshows
    have hrest := hsteps.cancel hserves hbefore
    rw [exchanges_append] at hserves
    obtain ⟨between, hfirst, hmore⟩ := Store.serves_append.mp hserves
    obtain rfl := hrepeated.unique hfirst
    obtain ⟨after, -, hserves'⟩ := Store.serves_repeating_nil.mp hmore
    exact ⟨last, after, shows_iff.mpr ⟨hrest, hserves'⟩⟩
  · rintro ⟨last, later, hshows⟩
    obtain ⟨hsteps, hserves⟩ := shows_iff.mp hshows
    refine ⟨last, ([], later), shows_iff.mpr ⟨hbefore.trans hsteps, ?_⟩⟩
    rw [exchanges_append]
    exact Store.serves_append.mpr
      ⟨_, hrepeated, Store.serves_repeating_nil.mpr ⟨later, rfl, hserves⟩⟩

/-- A recursive reader without a limit between two pages. -/
structure Between (reader : Reader) (key : Item) : Prop where
  phase : reader.phase = .bound
  buffer : reader.buffer = []
  pages : reader.pages ≠ 0
  last : reader.last = some key
  recursive : reader.recursive = true
  unlimited : reader.request.read.limit = none
  unbounded : reader.budget = none

/-- With a page behind it the reader turns the next one as it is. -/
theorem eq_of_turns_further (hreached : Reached start before middle)
    (hturns : middle.Turns bound) (hpages : pagesRead before ≠ []) : bound = middle := by
  cases hturns with
  | further _ _ _ => rfl
  | first hphase _ =>
      cases hreached with
      | configuring _ => exact absurd rfl hpages
      | bound hphase' _ _ | exhausted hphase' _ _ =>
          rw [hphase'] at hphase
          cases hphase

/-- A recursive reader that turns a further page is between two pages. -/
theorem between_of_turns (hconfigured : start.Configured) (hrecursive : start.recursive = true)
    (hlimit : start.request.read.limit = none) (hsteps : Steps start before middle)
    (hturns : middle.Turns bound) (hpages : pagesRead before ≠ []) :
    ∃ page key, bound = middle ∧ (pagesRead before).getLast? = some page ∧
      page.last = some key ∧ Between middle key := by
  have hconflict := not_hasConflict_of_unlimited hlimit
  obtain ⟨-, hreached⟩ := hconfigured.reached hconflict hsteps
  obtain rfl := eq_of_turns_further hreached hturns hpages
  obtain ⟨htracks, hphase, hbuffer, hwants⟩ := ready_of_turns hreached hconflict hturns
  obtain ⟨-, ⟨page, key, hlast, htoken⟩, -⟩ := hwants.2.resolve_left hpages
  refine ⟨page, key, rfl, hlast, htoken, ?_⟩
  exact
    { phase := hphase, buffer := hbuffer
      pages := by
        rw [htracks.pages]
        exact fun hzero => hpages (List.length_eq_zero_iff.mp hzero)
      last := by
        rw [htracks.last, hlast]
        exact htoken
      recursive := htracks.recursive.trans hrecursive
      unlimited := by rw [htracks.request, hlimit]
      unbounded := by
        rw [htracks.budget]
        simp [remaining, allowance, hlimit] }

/-- Between two pages a reader and the one that starts there ask for the same page, and one
chain goes on for both. -/
theorem Between.linked {key : Item} (h : Between reader key) :
    reader.pageRequest = (reader.startingAfter key).request ∧
      ∃ link, Linked reader link ∧ Linked (reader.startingAfter key) link := by
  let single : Reader := { reader with recursive := false }
  have htwins : Twins reader single :=
    { request := fun _ => rfl, validator := rfl, incomplete := rfl, recursive := h.recursive
      single := rfl, unlimited := ⟨h.unlimited, h.unlimited⟩
      unbounded := ⟨h.unbounded, h.unbounded⟩ }
  have hpoised := htwins.poised h.phase h.buffer h.last h.pages
  have hresumed := (fresh_startingAfter single key).linked rfl h.unlimited
  have hsame : { single.startingAfter key with recursive := true } = reader.startingAfter key := by
    simp only [single, startingAfter, h.recursive]
  rw [hsame] at hresumed
  exact ⟨hpoised.request, _, .poised hpoised, hresumed⟩

/-- **Resuming after a failure.**  A recursive reader without a limit that has read pages
and then failed knows where the last of them ended, and the reader that goes on from there
first asks for the page that failed.  What was seen before the failure, followed by what is
seen of the new reader, is what is seen without the failure. -/
theorem resumes_after_fault (hconfigured : start.Configured) (hrecursive : start.recursive = true)
    (hlimit : start.request.read.limit = none) {store : Store σ} {state later : σ}
    {history : List Event} {fault : Fault} (hshows : Shows store start state history left later)
    (hpages : pagesRead history ≠ []) (hfault : .error fault ∈ answers history) :
    ∃ before failed key fresh count,
      history = before ++ .asked failed :: .yielded (.error fault) ::
        List.replicate count .ended ∧
      failed.page? = some (.error fault) ∧ Resumes start left before failed key fresh := by
  obtain ⟨hsteps, -⟩ := shows_iff.mp hshows
  obtain ⟨before, middle, bound, count, hbefore, hturns, rfl, rfl⟩ := hsteps.split_fault hfault
  have hpages' : pagesRead before ≠ [] := by
    simpa [pagesRead, answers, Event.exchanges, PageRequest.page?_exchange, Except.toOption]
      using hpages
  obtain ⟨page, key, rfl, hlast, htoken, hbetween⟩ :=
    between_of_turns hconfigured hrecursive hlimit hbefore hturns hpages'
  obtain ⟨hrequest, link, hlinked, hresumed⟩ := hbetween.linked
  refine ⟨before, _, key, bound.startingAfter key, count, rfl, PageRequest.page?_exchange _ _, ?_⟩
  exact
    { token := ⟨page, hlast, htoken⟩
      lastKey := hbetween.last
      again := again_eq_ok hbetween.last
      request := by
        rw [PageRequest.call_exchange, hrequest]
        exact (fresh_startingAfter bound key).firstMakes
          (not_hasConflict_of_unlimited hbetween.unlimited)
      resumes := by
        intro τ store state events
        rw [shows_repeating_iff hbefore, hlinked.chain_iff, hresumed.chain_iff] }

/-- The third page fails, the second one was empty, and the store has recovered when the
reading is resumed. -/
theorem resumes_after_fault_script :
    let item (k : String) : Item := [("k", .text k)]
    let reader : Reader :=
      { Reader.ofRequest { access := .scan, read := { table := "t" } } .none false with
        recursive := true }
    let script : List ScriptedAnswer :=
      [{ page := { items := [item "a"], last := some (item "1") } },
        { page := { last := some (item "2") } },
        { fault := some (.throttled "slow down") },
        { page := { items := [item "b"] } }]
    let seen := reader.pulls scriptedStore [1, 1] script
    let history := historyOf seen.1.1
    (∃ before failed key fresh count,
      history = before ++ .asked failed :: .yielded (.error (.throttled "slow down")) ::
        List.replicate count .ended ∧
      failed.page? = some (.error (.throttled "slow down")) ∧
      Resumes reader seen.1.2 before failed key fresh) ∧
    results history = [.ok (item "a"), .error (.throttled "slow down")] ∧
    seen.1.2.again.toOption.map
        (fun fresh => results (historyOf (fresh.pulls scriptedStore [1, 1] seen.2).1.1)) =
      some [.ok (item "b")] := by
  intro item reader script seen history
  have hconfigured : reader.Configured := .set (.ofRequest _ _ _) .recursively rfl
  have hanswers : answers history =
      [.ok { items := [item "a"], last := some (item "1") }, .ok { last := some (item "2") },
        .error (.throttled "slow down")] := by rfl
  have hfault : .error (.throttled "slow down") ∈ answers history := by
    rw [hanswers]
    simp
  have hpages : pagesRead history ≠ [] := by
    simp [pagesRead, hanswers, Except.toOption]
  exact ⟨resumes_after_fault hconfigured rfl rfl (shows_pulls scriptedStore reader script [1, 1])
    hpages hfault, by rfl, by rfl⟩

end Reader

end KeywordTable
