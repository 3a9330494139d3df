import KeywordTable.Proofs.Paging.Counting

/-!
# A limit that is spent across pages

The limit of a recursive reader may be meant for all pages together.  Then each page is
limited to what the pages before it have left, and reading ends when nothing is left.
`Spends` says so of the exchanges of a read, and it follows from the law that yielding and
counting share (`Wanted.spends`), if no page looks at more items than it was allowed to.

The main result, `spends_limit`, adds when reading goes on, and what is left when it does
not: a reader whose limit is spent knows where to go on, and `again` goes on there with the
whole limit.
-/

namespace KeywordTable

variable {σ : Type}

open Event

/-- The last page names a successor. -/
def Event.HasSuccessor (history : List Event) : Prop :=
  ∃ page token, (pagesRead history).getLast? = some page ∧ page.last = some token

/-- No page looked at more items than it was allowed to, nor at less than none. -/
def WithinLimits (exchanges : List Exchange) : Prop :=
  ∀ exchange ∈ exchanges, ∀ page first limit, exchange.page? = some (.ok page) →
    exchange.call.window? = some (first, some limit) →
    0 ≤ page.scanned.toInt ∧ page.scanned.toInt ≤ limit.toInt

namespace Reader

variable {start reader left : Reader} {size : Int32} {history : List Event}
  {exchanges : List Exchange} {move : Move}

/-- The exchanges of a read spend a limit. -/
structure Spends (size : Int32) (exchanges : List Exchange) : Prop where
  /-- Each page is limited to what the pages before it have left, and that is something. -/
  limits : ∀ before exchange, before ++ [exchange] <+: exchanges →
    1 ≤ size.toInt - scanned (before.map .asked) ∧
      ∃ first limit, exchange.call.window? = some (first, some limit) ∧
        limit.toInt = size.toInt - scanned (before.map .asked)
  /-- No more items are looked at than the limit allows. -/
  total : 0 ≤ scanned (exchanges.map .asked) ∧ scanned (exchanges.map .asked) ≤ size.toInt

/-! ### What is left of the limit -/

/-- How much was looked at can be told from the exchanges alone. -/
theorem scanned_exchanges (history : List Event) :
    scanned ((Event.exchanges history).map .asked) = scanned history := by
  rw [scanned, pagesRead, answers_exchanges]
  rfl

/-- As long as no more was looked at than the limit allows, the difference is left. -/
theorem remaining_of_allowance (hallowance : start.allowance = some size)
    (hscanned : 0 ≤ scanned history ∧ scanned history ≤ size.toInt) :
    ∃ left, start.remaining history = some left ∧ left.toInt = size.toInt - scanned history := by
  have hleft : ∃ left, start.remaining history = some left := by
    rw [remaining, hallowance]
    exact ⟨_, rfl⟩
  obtain ⟨left, hleft⟩ := hleft
  have hsize := size.toInt_lt
  exact ⟨left, hleft, toInt_remaining hallowance hleft (by omega) (by omega)⟩

/-- What is left is positive if less was looked at than the limit allows. -/
theorem remaining_pos_iff (hallowance : start.allowance = some size)
    (hscanned : 0 ≤ scanned history ∧ scanned history ≤ size.toInt) :
    (∀ left, start.remaining history = some left → 0 < left) ↔ scanned history < size.toInt := by
  obtain ⟨left, hleft, hdifference⟩ := remaining_of_allowance hallowance hscanned
  rw [hleft]
  simp only [Option.some.injEq, forall_eq', Int32.lt_iff_toInt_lt, Int32.toInt_zero]
  omega

/-- A page is wanted only if something is left for it. -/
theorem one_le_of_wantsPage (hallowance : start.allowance = some size) (hsize : 1 ≤ size.toInt)
    (hscanned : 0 ≤ scanned history ∧ scanned history ≤ size.toInt)
    (hwants : start.WantsPage history) : 1 ≤ size.toInt - scanned history := by
  rcases hwants.2 with hnone | ⟨-, -, hleft⟩
  · simpa [scanned, hnone] using hsize
  · have hless := (remaining_pos_iff hallowance hscanned).mp hleft
    omega

/-- After a page another one is wanted if it has a successor and something is left. -/
theorem wantsPage_iff_scanned (hrecursive : start.recursive = true)
    (hallowance : start.allowance = some size)
    (hscanned : 0 ≤ scanned history ∧ scanned history ≤ size.toInt)
    (hpages : pagesRead history ≠ []) (hunfailed : ∀ fault, .error fault ∉ answers history) :
    start.WantsPage history ↔ HasSuccessor history ∧ scanned history < size.toInt := by
  rw [WantsPage, remaining_pos_iff hallowance hscanned]
  constructor
  · rintro ⟨-, hnone | ⟨-, hsuccessor, hless⟩⟩
    · exact absurd hnone hpages
    · exact ⟨hsuccessor, hless⟩
  · rintro ⟨hsuccessor, hless⟩
    exact ⟨hunfailed, Or.inr ⟨hrecursive, hsuccessor, hless⟩⟩

/-- **A limit is spent** by requests for the pages that are wanted. -/
theorem Wanted.spends (hallowance : start.allowance = some size) (hsize : 1 ≤ size.toInt)
    (h : start.Wanted exchanges) (hwithin : WithinLimits exchanges) : Spends size exchanges := by
  induction h with
  | nil =>
      refine ⟨fun before exchange hbefore => by simp at hbefore, ?_⟩
      rw [List.map_nil, scanned_nil]
      omega
  | @snoc exchanges h hwants answer ih =>
      have hspends := ih fun exchange hmem => hwithin exchange (List.mem_append_left _ hmem)
      have hscanned := hspends.total
      have hpositive := one_le_of_wantsPage hallowance hsize hscanned hwants
      obtain ⟨left, hleft, hdifference⟩ := remaining_of_allowance hallowance hscanned
      have hwindow : ((start.nextRequest (exchanges.map .asked)).exchange answer).call.window? =
          some (start.nextStart (exchanges.map .asked), some left) := by
        rw [PageRequest.window?_exchange, nextRequest, hleft]
        rfl
      refine ⟨fun before exchange hbefore => ?_, ?_⟩
      · rcases List.prefix_concat_iff.mp hbefore with heq | hbefore
        · obtain ⟨rfl, hexchange⟩ := List.append_inj' heq rfl
          rw [List.singleton_inj.mp hexchange]
          exact ⟨hpositive, _, left, hwindow, hdifference⟩
        · exact hspends.limits before exchange hbefore
      · cases answer with
        | error fault => simpa [scanned] using hspends.total
        | ok page =>
            have hpage := hwithin _ (List.mem_append_right _ (List.mem_singleton_self _)) page _ _
              (PageRequest.page?_exchange _ _) hwindow
            have hsum : scanned ((exchanges ++
                [(start.nextRequest (exchanges.map .asked)).exchange (.ok page)]).map .asked) =
                scanned (exchanges.map .asked) + page.scanned.toInt := by
              simp
            omega

/-! ### Going on -/

/-- When everything was yielded, the next call asks for a page exactly if one is wanted. -/
theorem Next.asks_iff {moves : Nat} (hconflict : ¬ start.HasConflict)
    (hfollows : start.Follows history) (hreached : Reached start history reader)
    (h : Next (moves + 1) reader exchanges move left)
    (hall : results history = start.received history) :
    exchanges ≠ [] ↔ start.WantsPage history := by
  have hfollows' := (reached_steps hconflict hfollows hreached h.steps).1
  have hlength : move = .turned → exchanges.length = moves + 1 := by
    rintro rfl
    exact h.length_of_turned
  have hevents := @Pull.events_ne_nil ⟨exchanges, move⟩ moves hlength
  obtain ⟨event, rest, hcons⟩ := List.exists_cons_of_ne_nil hevents
  have hdue : start.Due history event := hfollows'.due ⟨rest, by rw [hcons]; simp⟩
  have hfirst : exchanges ≠ [] ↔ ∃ exchange, event = .asked exchange := by
    cases exchanges with
    | nil =>
        refine iff_of_false (fun hne => hne rfl) ?_
        rintro ⟨exchange, rfl⟩
        cases move <;> simp [Pull.events, Move.events] at hcons
    | cons exchange more =>
        rw [Pull.events, List.map_cons, List.cons_append] at hcons
        exact iff_of_true (List.cons_ne_nil _ _) ⟨exchange, (List.cons.inj hcons).1.symm⟩
  rw [hfirst, (due_iff hdue).2.1]
  exact and_iff_right hall

/-- What is known of a reader that spends its limit on what it yields. -/
structure SpendsYielding (store : Store σ) (start : Reader) (size : Int32) (history : List Event)
    (left : Reader) (later : σ) : Prop where
  spends : Spends size (Event.exchanges history)
  /-- When everything was yielded, the next call asks for a page exactly if the last one has
  a successor and something is left of the limit. -/
  goes_on : results history = start.received history → pagesRead history ≠ [] →
    (∀ fault, .error fault ∉ answers history) → ∀ moves,
    ((left.next store.logging (moves + 1) (later, [])).2.2 ≠ [] ↔
      HasSuccessor history ∧ scanned history < size.toInt)
  /-- If it ends though the last page has a successor, then the limit is spent, and another
  reader can go on right after that page with the whole limit. -/
  resumes : .ended ∈ history → (∀ fault, .error fault ∉ answers history) → ∀ page key,
    (pagesRead history).getLast? = some page → page.last = some key →
    scanned history = size.toInt ∧ left.lastKey = some key ∧
    left.again = .ok (start.startingAfter key) ∧
    (start.startingAfter key).FirstMakes (start.request.window (some key) (some size)).toCall

/-- What is known of a count that spends the limit and may read so many pages. -/
structure SpendsCounting (size : Int32) (pages : Nat) (exchanges : List Exchange) : Prop where
  spends : Spends size exchanges
  /-- After a page another one is asked for exactly if it has a successor and something is
  left of the limit. -/
  goes_on : ∀ before, before <+: exchanges → before ≠ [] → before.length < pages →
    (∀ fault, .error fault ∉ answers (before.map .asked)) →
    ((∃ exchange, before ++ [exchange] <+: exchanges) ↔
      HasSuccessor (before.map .asked) ∧ scanned (before.map .asked) < size.toInt)

variable {store : Store σ} {state later : σ}

/-- A limit that is spent across pages is the whole allowance. -/
theorem allowance_eq (hrecursive : start.recursive = true) (hacross : start.acrossPages = true) :
    start.allowance = start.request.read.limit := by
  rw [allowance, hrecursive, hacross]
  rfl

/-- A limit that is spent across pages conflicts with nothing. -/
theorem not_hasConflict_of_acrossPages (hacross : start.acrossPages = true) :
    ¬ start.HasConflict := by
  rintro ⟨-, -, hsingle⟩
  rw [hacross] at hsingle
  cases hsingle

/-- Yielding spends the limit. -/
theorem spendsYielding_of_shows (hconfigured : start.Configured)
    (hrecursive : start.recursive = true) (hacross : start.acrossPages = true)
    (hlimit : start.request.read.limit = some size) (hsize : 1 ≤ size.toInt)
    (hshows : Shows store start state history left later)
    (hwithin : WithinLimits (Event.exchanges history)) :
    SpendsYielding store start size history left later := by
  have hconflict := not_hasConflict_of_acrossPages hacross
  have hallowance := (allowance_eq hrecursive hacross).trans hlimit
  obtain ⟨hsteps, -⟩ := shows_iff.mp hshows
  obtain ⟨hfollows, hreached⟩ := hconfigured.reached hconflict hsteps
  have hspends := hfollows.wanted.spends hallowance hsize hwithin
  have hscanned := hspends.total
  rw [scanned_exchanges] at hscanned
  refine { spends := hspends, goes_on := ?_, resumes := ?_ }
  · intro hall hpages hunfailed moves
    obtain ⟨exchanges, hlog, -, hnext⟩ := next_logging store (moves + 1) left later []
    rw [hlog, List.nil_append, hnext.asks_iff hconflict hfollows hreached hall]
    exact wantsPage_iff_scanned hrecursive hallowance hscanned hpages hunfailed
  · intro hended hunfailed page key hlast htoken
    have hpages : pagesRead history ≠ [] := fun hnil => by simp [hnil] at hlast
    have hkey : left.last = some key := by
      rw [hsteps.last_eq, hlast]
      exact htoken
    refine ⟨?_, hkey, ?_, ?_⟩
    · have hdone := (done_of_ended hconfigured hconflict hsteps hended).2
      rw [wantsPage_iff_scanned hrecursive hallowance hscanned hpages hunfailed] at hdone
      have hspent : ¬ scanned history < size.toInt := fun hless =>
        hdone ⟨⟨page, key, hlast, htoken⟩, hless⟩
      omega
    · rw [again_eq_ok hkey, hsteps.startingAfter_eq]
    · rw [← hlimit]
      exact (fresh_startingAfter start key).firstMakes hconflict

/-- Counting spends the limit. -/
theorem spendsCounting_of_count (hconfigured : start.Configured)
    (hrecursive : start.recursive = true) (hacross : start.acrossPages = true)
    (hlimit : start.request.read.limit = some size) (hsize : 1 ≤ size.toInt) {pages : Nat}
    {outcome : Except Fault (Option Int)}
    (hcount : (start.count store.logging pages).attempt (state, []) = (outcome, later, exchanges))
    (hwithin : WithinLimits exchanges) : SpendsCounting size pages exchanges := by
  have hconflict := not_hasConflict_of_acrossPages hacross
  have hfresh := fresh_counting hconfigured.fresh
  have hallowance : start.counting.allowance = some size :=
    (allowance_eq hrecursive hacross).trans hlimit
  obtain ⟨_, _, _, hlog, -, hcounts⟩ := count_logging hconfigured.fresh hconflict store pages state
  rw [hcount] at hlog
  cases hlog
  obtain ⟨hwanted, hwants⟩ := hcounts.wanted_of_fresh hfresh hconflict
  refine { spends := hwanted.spends hallowance hsize hwithin, goes_on := ?_ }
  intro before hbefore hne hlength hunfailed
  have hpages := (hwanted.of_isPrefix hbefore).pagesRead_ne_nil hne hunfailed
  have hspends := (hwanted.of_isPrefix hbefore).spends hallowance hsize fun exchange hmem =>
    hwithin exchange (hbefore.subset hmem)
  rw [← wantsPage_iff_scanned hrecursive hallowance hspends.total hpages hunfailed]
  constructor
  · rintro ⟨exchange, hlonger⟩
    exact (hwanted.wants hlonger).1
  · intro hmore
    obtain ⟨_ | ⟨exchange, rest⟩, rfl⟩ := hbefore
    · rw [List.append_nil] at hwants hcounts
      have htells := hcounts.tells
      rw [hwants.mp hmore] at htells
      exact absurd htells hlength.ne
    · exact ⟨exchange, rest, by simp⟩

/-- **A limit that is spent across pages is a budget** for all of them, whether items are
yielded or counted, as long as no page looks at more of them than it was allowed to. -/
theorem spends_limit (hconfigured : start.Configured) (hrecursive : start.recursive = true)
    (hacross : start.acrossPages = true) (hlimit : start.request.read.limit = some size)
    (hsize : 1 ≤ size.toInt) (store : Store σ) (state : σ) :
    (∀ history left later, Shows store start state history left later →
      WithinLimits (Event.exchanges history) →
      SpendsYielding store start size history left later) ∧
    ∀ pages outcome later exchanges,
      (start.count store.logging pages).attempt (state, []) = (outcome, later, exchanges) →
      WithinLimits exchanges → SpendsCounting size pages exchanges := by
  constructor
  · intro history left later hshows hwithin
    exact spendsYielding_of_shows hconfigured hrecursive hacross hlimit hsize hshows hwithin
  · intro pages outcome later exchanges hcount hwithin
    exact spendsCounting_of_count hconfigured hrecursive hacross hlimit hsize hcount hwithin

/-- Three pages, the second of which looks at nothing.  The third spends what is left of the
limit, and there would be more to read. -/
theorem spends_limit_script :
    let item (k : String) : Item := [("k", .text k)]
    let reader : Reader :=
      { Reader.ofRequest { access := .scan, read := { table := "t", limit := some 3 } } .none
          false with recursive := true, acrossPages := true }
    let first : Page := { items := [item "a"], last := some (item "b"), count := 1, scanned := 2 }
    let second : Page := { last := some (item "c") }
    let third : Page := { last := some (item "d"), scanned := 1 }
    let script : List ScriptedAnswer := [{ page := first }, { page := second }, { page := third }]
    let seen := reader.pulls scriptedStore [1, 2] script
    let history := historyOf seen.1.1
    let counted := (reader.count scriptedStore.logging 4).attempt (script, [])
    SpendsYielding scriptedStore reader 3 history seen.1.2 seen.2 ∧
      SpendsCounting 3 4 counted.2.2 ∧
      .ended ∈ history ∧
      (Event.exchanges history).map (·.call.window?) =
        [some (none, some 3), some (some (item "b"), some 1), some (some (item "c"), some 1)] ∧
      seen.1.2.again.toOption.map Reader.request =
        some (reader.request.window (some (item "d")) (some 3)) := by
  intro item reader first second third script seen history counted
  have hconfigured : reader.Configured :=
    .set (.set (.ofRequest _ _ _) .recursively rfl) .limitAcrossPages rfl
  obtain ⟨hyields, hcounts⟩ := spends_limit hconfigured rfl rfl rfl (by decide)
    scriptedStore script
  have hended : .ended ∈ history := by decide +kernel
  have hexchanges : Event.exchanges history =
      [⟨.scan { table := "t", limit := some 3 }, .ok first⟩,
        ⟨.scan { table := "t", start := some (item "b"), limit := some 1 }, .ok second⟩,
        ⟨.scan { table := "t", start := some (item "c"), limit := some 1 },
          .ok third⟩] := by decide +kernel
  have hcounted : counted.2.2 =
      [⟨.scan { table := "t", limit := some 3, select := some "COUNT" }, .ok first⟩,
        ⟨.scan { table := "t", start := some (item "b"), limit := some 1,
                 select := some "COUNT" }, .ok second⟩,
        ⟨.scan { table := "t", start := some (item "c"), limit := some 1,
                 select := some "COUNT" }, .ok third⟩] := by decide +kernel
  have hwithin : WithinLimits (Event.exchanges history) := by
    rw [hexchanges]
    simp [WithinLimits, Exchange.page?, Call.window?, first, second, third]
  have hwithin' : WithinLimits counted.2.2 := by
    rw [hcounted]
    simp [WithinLimits, Exchange.page?, Call.window?, first, second, third]
  have hyielding := hyields history _ _ (shows_pulls scriptedStore reader script [1, 2]) hwithin
  have hanswers : answers history = [.ok first, .ok second, .ok third] := by decide +kernel
  obtain ⟨-, -, hagain, -⟩ := hyielding.resumes hended (by simp [hanswers]) third (item "d")
    (by decide +kernel) rfl
  refine ⟨hyielding, hcounts 4 _ _ _ rfl hwithin', hended, ?_, ?_⟩
  · rw [hexchanges]
    rfl
  · rw [hagain]
    rfl

end Reader

end KeywordTable
