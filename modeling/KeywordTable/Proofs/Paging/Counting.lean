import KeywordTable.Proofs.Paging.Requests
import Mathlib.Data.List.Forall2

/-!
# Counting instead of yielding

Counting reads the same pages as yielding, by a loop of its own that asks the store for
counts only.  `Counts` says what that loop can do, and `count_logging` ties it to the
function that runs.

The main result, `count_eq_length_results`, compares the two loops on a store whose answers
are fixed and whose counts are honest.  Both ask for the pages that are wanted
(`Follows.wanted`, `Counts.wanted`).  As long as they have made equally many requests, these
were for the same stretches and were answered alike (`Wanted.tallied`), so neither can stop
before the other.
-/

namespace KeywordTable

variable {σ : Type}

open Event

/-- The request that asks for the count of the same page. -/
def PageRequest.counting (request : PageRequest) : PageRequest :=
  { request with read := { request.read with select := some "COUNT", selection := {} } }

namespace Reader

variable {reader : Reader} {exchanges : List Exchange}
  {outcome : Except Fault (Option Int)} {pages : Nat} {total : Int}

/-! ### What counting does -/

/-- What counting can do in a given number of pages: the exchanges that it makes, and what
it comes to. -/
inductive Counts : Nat → Int → Reader → List Exchange → Except Fault (Option Int) → Prop
  | cut (total : Int) (reader : Reader) : Counts 0 total reader [] (.ok none)
  | failed {pages : Nat} {total : Int} {reader : Reader} (fault : Fault) :
      Counts (pages + 1) total reader [reader.pageRequest.exchange (.error fault)] (.error fault)
  | last {pages : Nat} {total : Int} {reader : Reader} (page : Page)
      (hlast : ¬ (reader.afterPage page).hasNextPage) :
      Counts (pages + 1) total reader [reader.pageRequest.exchange (.ok page)]
        (.ok (some (total + page.count.toInt)))
  | further {pages : Nat} {total : Int} {reader : Reader} {exchanges : List Exchange}
      {outcome : Except Fault (Option Int)} (page : Page)
      (hmore : (reader.afterPage page).hasNextPage)
      (hrest : Counts pages (total + page.count.toInt) (reader.afterPage page) exchanges outcome) :
      Counts (pages + 1) total reader (reader.pageRequest.exchange (.ok page) :: exchanges)
        outcome

/-- What the answer to the request for a page leads to. -/
theorem countPages_succ (store : Store σ) (pages : Nat) (total : Int) (reader : Reader)
    (state : σ) :
    (reader.countPages store (pages + 1) total).attempt state =
      match (reader.pageRequest.send store).attempt state with
      | (.error fault, later) => (.error fault, later)
      | (.ok page, later) =>
        if (reader.afterPage page).hasNextPage then
          ((reader.afterPage page).countPages store pages (total + page.count.toInt)).attempt later
        else (.ok (some (total + page.count.toInt)), later) := by
  rw [countPages, Run.attempt_bind, fetch, Run.attempt_bind]
  rcases (reader.pageRequest.send store).attempt state with ⟨answer, later⟩
  cases answer with
  | error fault => rfl
  | ok page =>
      show (ite _ _ _ : Run σ (Option Int)).attempt later = _
      by_cases hmore : (reader.afterPage page).hasNextPage
      · simp only [if_pos hmore]
      · simp only [if_neg hmore]
        rfl

/-- **What counting does.**  Logging the exchanges changes nothing, the store serves them,
and they are those that counting is said to make. -/
theorem countPages_logging (store : Store σ) (pages : Nat) (total : Int) (reader : Reader)
    (state : σ) (log : List Exchange) :
    ∃ exchanges outcome later,
      (reader.countPages store.logging pages total).attempt (state, log) =
        (outcome, later, log ++ exchanges) ∧
      store.Serves state exchanges later ∧ Counts pages total reader exchanges outcome := by
  induction pages generalizing total reader state log with
  | zero => exact ⟨[], _, state, by rw [List.append_nil]; rfl, .nil state, .cut total reader⟩
  | succ pages ih =>
      rw [countPages_succ, PageRequest.send_logging]
      have hserves : store.Serves state
          [reader.pageRequest.exchange ((reader.pageRequest.send store).attempt state).1]
          ((reader.pageRequest.send store).attempt state).2 := PageRequest.serves_exchange.mpr rfl
      revert hserves
      rcases (reader.pageRequest.send store).attempt state with ⟨answer, middle⟩
      intro hserves
      cases answer with
      | error fault => exact ⟨_, _, _, rfl, hserves, .failed fault⟩
      | ok page =>
          by_cases hmore : (reader.afterPage page).hasNextPage
          · obtain ⟨more, outcome, later, hlog, hserves', hcounts⟩ := ih (total + page.count.toInt)
              (reader.afterPage page) middle (log ++ [reader.pageRequest.exchange (.ok page)])
            refine ⟨_ :: more, outcome, later, ?_, ?_, .further page hmore hcounts⟩
            · simp only [hmore, if_true, hlog, List.append_assoc, List.singleton_append]
            · exact Store.serves_append.mpr ⟨middle, hserves, hserves'⟩
          · refine ⟨_, _, middle, ?_, hserves, .last page hmore⟩
            simp only [hmore]
            rfl

/-- A reader that has read nothing counts after fixing the same options. -/
theorem count_eq (hfresh : reader.Fresh) (hconflict : ¬ reader.HasConflict) (store : Store σ)
    (pages : Nat) : reader.count store pages = countPages store pages 0 reader.counting.fixed := by
  have hbind : reader.counting.bindOptions = .ok reader.counting.fixed :=
    bindOptions_of_not_hasConflict hconflict hfresh.budget
  have hconfigure : (reader.configure fun r => r.counting.bindOptions) =
      .ok reader.counting.fixed := by
    rw [configure, if_pos hfresh.phase, hbind]
  unfold count
  rw [hconfigure]
  rfl

/-- A reader that only counts is as fresh as the reader. -/
theorem fresh_counting (hfresh : reader.Fresh) : reader.counting.Fresh :=
  ⟨hfresh.phase, hfresh.buffer, hfresh.pages, hfresh.budget, hfresh.last⟩

/-- Counting asks for its pages and sums up what they counted. -/
theorem count_logging (hfresh : reader.Fresh) (hconflict : ¬ reader.HasConflict)
    (store : Store σ) (pages : Nat) (state : σ) :
    ∃ exchanges outcome later,
      (reader.count store.logging pages).attempt (state, []) = (outcome, later, exchanges) ∧
      store.Serves state exchanges later ∧
      Counts pages 0 reader.counting.fixed exchanges outcome := by
  rw [count_eq hfresh hconflict]
  exact countPages_logging store pages 0 reader.counting.fixed state []

/-- What an outcome says of the exchanges that led to it. -/
def Tells (pages : Nat) (total : Int) (exchanges : List Exchange) :
    Except Fault (Option Int) → Prop
  | .error fault => .error fault ∈ answers (exchanges.map .asked)
  | .ok none => exchanges.length = pages
  | .ok (some sum) => sum = total + counted (exchanges.map .asked)

/-- What a count comes to is told by its exchanges. -/
theorem Counts.tells (h : Counts pages total reader exchanges outcome) :
    Tells pages total exchanges outcome := by
  induction h with
  | cut total reader => rfl
  | failed fault => simp [Tells]
  | last page hlast => simp [Tells, counted]
  | @further pages total reader exchanges outcome page hmore hrest ih =>
      rcases outcome with fault | _ | sum
      · simpa [Tells] using ih
      · simpa [Tells] using ih
      · simpa [Tells, counted, Int.add_assoc] using ih

/-! ### Which pages counting asks for -/

variable {start : Reader} {history : List Event} {before : List Exchange} {buffer : List Item}

/-- A reader that counts keeps track like one that holds on to all items.  It asks for the
page that is due. -/
theorem pageRequest_counted (h : Tracks start history { reader with buffer }) :
    reader.pageRequest = start.nextRequest history :=
  (pageRequest_of_tracks h :)

/-- After a page it still keeps track, and it goes on if another page is wanted. -/
theorem tracks_counted (h : Tracks start (before.map .asked) { reader with buffer })
    (request : PageRequest) (page : Page) :
    Tracks start ((before ++ [request.exchange (.ok page)]).map .asked)
        { reader.afterPage page with buffer := buffer ++ page.items } ∧
      ((reader.afterPage page).hasNextPage ↔
        start.WantsPage ((before ++ [request.exchange (.ok page)]).map .asked)) := by
  have htracks := tracks_loaded h request page
  have hpages : pagesRead (before.map .asked ++ [.asked (request.exchange (.ok page))]) ≠ [] := by
    simp
  rw [List.map_append]
  exact ⟨htracks, (hasNextPage_iff_of_tracks htracks hpages :)⟩

/-- Counting asks for the pages that are wanted, and breaks off only while one is. -/
theorem Counts.wanted (h : Counts pages total reader exchanges outcome)
    (hwanted : start.Wanted before)
    (htracks : Tracks start (before.map .asked) { reader with buffer })
    (hwants : start.WantsPage (before.map .asked)) :
    start.Wanted (before ++ exchanges) ∧
      (start.WantsPage ((before ++ exchanges).map .asked) ↔ outcome = .ok none) := by
  induction h generalizing before buffer with
  | cut total reader =>
      rw [List.append_nil]
      exact ⟨hwanted, iff_of_true hwants rfl⟩
  | @failed pages total reader fault =>
      rw [pageRequest_counted htracks]
      refine ⟨hwanted.snoc hwants _, iff_of_false (fun hmore => hmore.1 fault ?_) nofun⟩
      simp
  | @last pages total reader page hlast =>
      obtain ⟨-, hmore⟩ := tracks_counted htracks reader.pageRequest page
      refine ⟨?_, iff_of_false (fun hwants' => hlast (hmore.mpr hwants')) nofun⟩
      rw [pageRequest_counted htracks]
      exact hwanted.snoc hwants _
  | @further pages total reader exchanges outcome page hmore hrest ih =>
      obtain ⟨htracks', hwants'⟩ := tracks_counted htracks reader.pageRequest page
      have hwanted' := hwanted.snoc hwants (.ok page)
      rw [← pageRequest_counted htracks] at hwanted'
      rw [List.append_cons]
      exact ih hwanted' htracks' (hwants'.mp hmore)

/-- From its first page on counting asks for what is wanted. -/
theorem Counts.wanted_of_fresh (hfresh : reader.Fresh) (hconflict : ¬ reader.HasConflict)
    (h : Counts pages total reader.fixed exchanges outcome) :
    reader.Wanted exchanges ∧
      (reader.WantsPage (exchanges.map .asked) ↔ outcome = .ok none) := by
  obtain ⟨htracks, -, -, hwants⟩ :=
    ready_of_turns (.configuring hfresh) hconflict (hfresh.turns hconflict)
  have hall := h.wanted .nil htracks hwants
  exact hall

end Reader

/-! ### Honest counts -/

/-- The store never fails, it always gives the same answer to a request for a page, and when
it counts a page of this read it counts what it would return. -/
structure Store.CountsHonestly (store : Store σ) (request : PageRequest)
    (page : PageRequest → Page) : Prop where
  answers : ∀ (sent : PageRequest) (state : σ),
    ((sent.send store).attempt state).1 = .ok (page sent)
  last : ∀ start limit,
    (page (request.window start limit).counting).last = (page (request.window start limit)).last
  scanned : ∀ start limit, (page (request.window start limit).counting).scanned =
    (page (request.window start limit)).scanned
  count : ∀ start limit, (page (request.window start limit).counting).count.toInt =
    (page (request.window start limit)).items.length

/-- One exchange asks for the count of what the other asks for, and the counts agree. -/
inductive Tallied : Exchange → Exchange → Prop
  | mk {request : PageRequest} {page tally : Page} (hlast : tally.last = page.last)
      (hscanned : tally.scanned = page.scanned) (hcount : tally.count.toInt = page.items.length) :
      Tallied (request.exchange (.ok page)) (request.counting.exchange (.ok tally))

variable {exchanges tallies : List Exchange}

/-- The same stretches were asked for. -/
theorem Tallied.map_window (h : List.Forall₂ Tallied exchanges tallies) :
    tallies.map (·.call.window?) = exchanges.map (·.call.window?) := by
  induction h with
  | nil => rfl
  | cons htallied hrest ih =>
      rw [List.map_cons, List.map_cons, ih]
      cases htallied
      rw [PageRequest.window?_exchange, PageRequest.window?_exchange]
      rfl

/-- The same is known about how to go on. -/
theorem Tallied.marks_eq (h : List.Forall₂ Tallied exchanges tallies) :
    marks (tallies.map .asked) = marks (exchanges.map .asked) := by
  induction h with
  | nil => rfl
  | cons htallied hrest ih =>
      cases htallied with
      | mk hlast hscanned hcount =>
          simp only [marks, List.map_cons, pagesRead_asked_ok, hlast, hscanned] at ih ⊢
          rw [ih]

/-- No page failed. -/
theorem Tallied.unfailed (h : List.Forall₂ Tallied exchanges tallies) :
    (∀ fault, .error fault ∉ answers (exchanges.map .asked)) ∧
      ∀ fault, .error fault ∉ answers (tallies.map .asked) := by
  induction h with
  | nil => exact ⟨fun _ => List.not_mem_nil, fun _ => List.not_mem_nil⟩
  | cons htallied hrest ih =>
      cases htallied with
      | mk hlast hscanned hcount => simpa using ih

/-- The counts are those of the items that were returned. -/
theorem Tallied.sum_count (h : List.Forall₂ Tallied exchanges tallies) (reader : Reader) :
    counted (tallies.map .asked) = (reader.received (exchanges.map .asked)).length := by
  induction h with
  | nil => rfl
  | cons htallied hrest ih =>
      cases htallied with
      | mk hlast hscanned hcount =>
          simp only [counted] at ih ⊢
          simp only [List.map_cons, pagesRead_asked_ok, List.sum_cons, hcount, ih,
            Reader.received, answers_asked, List.flatMap_cons, List.length_append,
            List.length_map, Nat.cast_add]

/-- A store answers with the page that it always answers with. -/
theorem Store.CountsHonestly.answer_eq {store : Store σ} {request sent : PageRequest}
    {page : PageRequest → Page} (hhonest : store.CountsHonestly request page) {state later : σ}
    {answer : Except Fault Page} (h : store.Serves state [sent.exchange answer] later) :
    answer = .ok (page sent) := by
  rw [← hhonest.answers sent state, PageRequest.serves_exchange.mp h]

/-- The page that a call finds, if that depends on where the page starts and on its limit; a
count comes without the items. -/
def Call.found (page : Option Item → Option Int32 → Page) : Call → Page
  | .query _ _ read | .scan read =>
    let found := page read.start read.limit
    if read.select = some "COUNT" then { found with items := [] } else found
  | _ => {}

/-- The store in which calls find these pages. -/
def Store.paging (page : Option Item → Option Int32 → Page) : Store Unit where
  answer call := fun state =>
    (.ok (({ page := call.found page } : ScriptedAnswer).reply call), state)

/-- A store of fixed pages counts what it would return, if each page does. -/
theorem Store.countsHonestly_paging {page : Option Item → Option Int32 → Page}
    {request : PageRequest} (hselect : request.read.select ≠ some "COUNT")
    (hcount : ∀ start limit, (page start limit).count.toInt = (page start limit).items.length) :
    (Store.paging page).CountsHonestly request (fun sent => sent.toCall.found page) := by
  have hfound : ∀ start limit, (request.window start limit).toCall.found page = page start limit ∧
      (request.window start limit).counting.toCall.found page =
        { page start limit with items := [] } := by
    intro start limit
    obtain ⟨access, read⟩ := request
    cases access <;>
      exact ⟨if_neg hselect, rfl⟩
  exact
    { answers := by
        rintro ⟨access, read⟩ state
        cases access <;> rfl
      last := fun start limit => by rw [(hfound start limit).1, (hfound start limit).2]
      scanned := fun start limit => by rw [(hfound start limit).1, (hfound start limit).2]
      count := fun start limit => by
        rw [(hfound start limit).1, (hfound start limit).2]
        exact hcount start limit }

namespace Reader

variable {reader left : Reader} {store : Store σ} {page : PageRequest → Page}
  {state later other after : σ} {history : List Event}

/-- What is left of a limit is the same for yielding and for counting. -/
theorem remaining_counting (h : List.Forall₂ Tallied exchanges tallies) :
    reader.counting.remaining (tallies.map .asked) = reader.remaining (exchanges.map .asked) :=
  remaining_congr (Tallied.marks_eq h)

/-- What is known about how to go on decides alike for yielding and for counting. -/
theorem wantsPage_counting (h : List.Forall₂ Tallied exchanges tallies) :
    reader.counting.WantsPage (tallies.map .asked) ↔ reader.WantsPage (exchanges.map .asked) := by
  obtain ⟨hunfailed, hunfailed'⟩ := Tallied.unfailed h
  rw [wantsPage_iff_marks, wantsPage_iff_marks, remaining_counting h, Tallied.marks_eq h]
  exact and_congr_left fun _ => iff_of_true hunfailed' hunfailed

/-- The page that is asked for next is the same in a count, up to what is selected. -/
theorem nextRequest_counting (h : List.Forall₂ Tallied exchanges tallies) :
    reader.counting.nextRequest (tallies.map .asked) =
      (reader.nextRequest (exchanges.map .asked)).counting := by
  unfold nextRequest
  rw [nextStart_eq_marks, nextStart_eq_marks, remaining_counting h, Tallied.marks_eq h]
  rfl

/-- As long as both have made equally many requests, these have asked for the same. -/
theorem Wanted.tallied (hhonest : store.CountsHonestly reader.request page)
    (h : reader.Wanted exchanges) (hserves : store.Serves state exchanges later)
    (h' : reader.counting.Wanted tallies) (hserves' : store.Serves other tallies after)
    (hlength : tallies.length = exchanges.length) : List.Forall₂ Tallied exchanges tallies := by
  induction h generalizing tallies later after with
  | nil =>
      rw [List.length_eq_zero_iff.mp hlength]
      exact .nil
  | @snoc exchanges h hwants answer ih =>
      cases h' with
      | nil => simp at hlength
      | @snoc tallies h' hwants' answer' =>
          obtain ⟨between, hfirst, hlast⟩ := Store.serves_append.mp hserves
          obtain ⟨between', hfirst', hlast'⟩ := Store.serves_append.mp hserves'
          have hbefore := ih hfirst h' hfirst' (by simpa using hlength)
          obtain rfl := hhonest.answer_eq hlast
          obtain rfl := hhonest.answer_eq hlast'
          rw [nextRequest_counting hbefore]
          refine List.rel_append hbefore (.cons (.mk ?_ ?_ ?_) .nil)
          · exact hhonest.last _ _
          · exact hhonest.scanned _ _
          · exact hhonest.count _ _

/-- Both stop after the same number of requests, unless counting is broken off before: a request
that only one of them makes would be wanted by the other. -/
theorem Wanted.tallied_of_done (hhonest : store.CountsHonestly reader.request page)
    (h : reader.Wanted exchanges) (hserves : store.Serves state exchanges later)
    (hdone : ¬ reader.WantsPage (exchanges.map .asked)) (h' : reader.counting.Wanted tallies)
    (hserves' : store.Serves other tallies after)
    (hbroken : reader.counting.WantsPage (tallies.map .asked) →
      exchanges.length ≤ tallies.length) : List.Forall₂ Tallied exchanges tallies := by
  refine h.tallied hhonest hserves h' hserves' (Nat.le_antisymm ?_ ?_)
  · by_contra hlonger
    obtain ⟨before, tally, hbefore, hlength⟩ := exists_prefix_of_lt (Nat.not_le.mp hlonger)
    obtain ⟨hwants, -⟩ := h'.wants hbefore
    obtain ⟨rest, rfl⟩ := hbefore
    rw [List.append_assoc] at h' hserves'
    obtain ⟨between, hfirst, -⟩ := Store.serves_append.mp hserves'
    have htallied := h.tallied hhonest hserves (h'.of_isPrefix (List.prefix_append _ _)) hfirst
      hlength
    exact hdone ((wantsPage_counting htallied).mp hwants)
  · by_contra hlonger
    obtain ⟨before, exchange, hbefore, hlength⟩ := exists_prefix_of_lt (Nat.not_le.mp hlonger)
    obtain ⟨hwants, -⟩ := h.wants hbefore
    obtain ⟨rest, rfl⟩ := hbefore
    rw [List.append_assoc] at h hserves
    obtain ⟨between, hfirst, -⟩ := Store.serves_append.mp hserves
    have htallied := (h.of_isPrefix (List.prefix_append _ _)).tallied hhonest hfirst h' hserves'
      hlength.symm
    exact hlonger (hbroken ((wantsPage_counting htallied).mpr hwants))

/-- **Counting agrees with yielding.**  The store is fixed, never fails, and counts what it
would return.  If a configured reader whose options do not conflict has yielded its results
and announced the end, then counting instead comes to the number of these results, as long
as it may read as many pages, and it has asked for the same stretches, page by page. -/
theorem count_eq_length_results (hconfigured : reader.Configured)
    (hconflict : ¬ reader.HasConflict) (hhonest : store.CountsHonestly reader.request page)
    (hshows : Shows store reader state history left later) (hended : .ended ∈ history)
    {pages : Nat} (hpages : (Event.exchanges history).length ≤ pages) :
    ∃ after tallies,
      (reader.count store.logging pages).attempt (other, []) =
        (.ok (some (results history).length), after, tallies) ∧
      tallies.map (·.call.window?) = (Event.exchanges history).map (·.call.window?) := by
  obtain ⟨hsteps, hserves⟩ := shows_iff.mp hshows
  obtain ⟨hall, hdone⟩ := done_of_ended hconfigured hconflict hsteps hended
  obtain ⟨hfollows, -⟩ := hconfigured.reached hconflict hsteps
  obtain ⟨tallies, outcome, after, hcount, hserves', hcounts⟩ :=
    count_logging hconfigured.fresh hconflict store pages other
  obtain ⟨hwanted, hwants⟩ := hcounts.wanted_of_fresh (fresh_counting hconfigured.fresh) hconflict
  have htells := hcounts.tells
  have hanswers := answers_exchanges history
  have htallied : List.Forall₂ Tallied (Event.exchanges history) tallies := by
    refine hfollows.wanted.tallied_of_done hhonest hserves ?_ hwanted hserves' fun hmore => ?_
    · rwa [wantsPage_congr hanswers]
    · rw [hwants.mp hmore] at htells
      exact hpages.trans_eq htells.symm
  refine ⟨after, tallies, ?_, Tallied.map_window htallied⟩
  rw [hcount]
  rcases outcome with fault | _ | sum
  · exact absurd htells ((Tallied.unfailed htallied).2 fault)
  · have hmore := (wantsPage_counting htallied).mp (hwants.mpr rfl)
    rw [wantsPage_congr hanswers] at hmore
    exact absurd hmore hdone
  · have hsum : sum = (results history).length := by
      rw [htells, Tallied.sum_count htallied reader, hall, received, received, hanswers, zero_add]
    rw [hsum]

/-- Two pages, the second of which is empty and spends what is left of the limit. -/
theorem count_eq_length_results_paging :
    let item (k : String) : Item := [("k", .text k)]
    let page (start : Option Item) (_ : Option Int32) : Page :=
      match start with
      | none => { items := [item "a"], last := some (item "b"), count := 1, scanned := 2 }
      | some _ => { last := some (item "c"), scanned := 1 }
    let reader : Reader :=
      { Reader.ofRequest { access := .scan, read := { table := "t", limit := some 3 } } .none
          false with recursive := true, acrossPages := true }
    let history := historyOf (reader.pulls (Store.paging page) [1, 1, 1] ()).1.1
    results history = [.ok (item "a")] ∧ .ended ∈ history ∧
      ∃ after tallies,
        (reader.count (Store.paging page).logging 2).attempt ((), []) =
          (.ok (some 1), after, tallies) ∧
        tallies.map (·.call.window?) =
          [some (none, some 3), some (some (item "b"), some 1)] := by
  intro item page reader history
  have hconfigured : reader.Configured :=
    .set (.set (.ofRequest _ _ _) .recursively rfl) .limitAcrossPages rfl
  have hconflict : ¬ reader.HasConflict := fun h => absurd h.2.2 (by decide)
  have hhonest : (Store.paging page).CountsHonestly reader.request
      (fun sent => sent.toCall.found page) := by
    refine Store.countsHonestly_paging (by decide) fun start limit => ?_
    cases start <;> rfl
  have hresults : results history = [.ok (item "a")] := by decide +kernel
  have hended : .ended ∈ history := by decide +kernel
  have hwindows : (Event.exchanges history).map (·.call.window?) =
      [some (none, some 3), some (some (item "b"), some 1)] := by decide +kernel
  have hpages : (Event.exchanges history).length = 2 := by
    rw [← List.length_map, hwindows]
    rfl
  obtain ⟨after, tallies, hcount, hsame⟩ := count_eq_length_results hconfigured hconflict
    hhonest (shows_pulls (Store.paging page) reader () [1, 1, 1]) hended (Nat.le_of_eq hpages)
  rw [hresults] at hcount
  rw [hwindows] at hsame
  exact ⟨hresults, hended, after, tallies, hcount, hsame⟩

end Reader

end KeywordTable
