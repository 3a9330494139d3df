import KeywordTable.Proofs.Paging.Runs
import KeywordTable.Script

/-!
# Every item once, in order, and not before it is asked for

The invariant `Reached` ties the state of a reader to the history of its events: what is
left in the buffer is what was received and not yielded, the token and the budget are
those of the pages so far.  It is kept by one move (`reached_step`), hence by a run
(`reached_steps`), hence by any number of calls (`reached_pulls`), and with it the law
that every event is due when it comes.  `delivers_pulls` says what follows for the
caller.
-/

namespace KeywordTable

variable {σ : Type}

open Event

namespace Reader

/-! ### The state of a reader and its history -/

/-- The options of the reader are those of another. -/
structure SameOptions (reader start : Reader) : Prop where
  request : reader.request = start.request
  recursive : reader.recursive = start.recursive
  validator : reader.validator = start.validator
  incomplete : reader.incomplete = start.incomplete

/-- The reader remembers of its history what it needs to go on. -/
structure Tracks (start : Reader) (history : List Event) (reader : Reader) : Prop
    extends SameOptions reader start where
  pages : reader.pages = (pagesRead history).length
  last : reader.last = (pagesRead history).getLast?.bind Page.last
  budget : reader.budget = start.remaining history
  unfailed : ∀ fault, .error fault ∉ answers history
  buffered : start.received history = results history ++ reader.buffer.map start.validated

/-- The state that a history leads to. -/
inductive Reached (start : Reader) : List Event → Reader → Prop
  | configuring (hfresh : start.Fresh) : Reached start [] start
  | bound {history : List Event} {reader : Reader} (hphase : reader.phase = .bound)
      (htracks : Tracks start history reader) (hpages : pagesRead history ≠ []) :
      Reached start history reader
  | exhausted {history : List Event} {reader : Reader} (hphase : reader.phase = .exhausted)
      (hall : results history = start.received history) (hstop : ¬ start.WantsPage history) :
      Reached start history reader

variable {start reader left : Reader} {history : List Event} {exchanges : List Exchange}
  {move : Move}

/-- Readers with the same options make the same of an item. -/
theorem SameOptions.validated (h : SameOptions reader start) :
    reader.validated = start.validated := by
  unfold Reader.validated yieldsIncomplete
  rw [h.request, h.validator, h.incomplete]

/-- The next page that the reader asks for is the one that is due. -/
theorem pageRequest_of_tracks (h : Tracks start history reader) :
    reader.pageRequest = start.nextRequest history := by
  have hstart : (if reader.pages = 0 then start.request.read.start else reader.last) =
      start.nextStart history := by
    rw [h.pages, h.last, nextStart]
    cases hlast : (pagesRead history).getLast? with
    | none => simp [List.getLast?_eq_none_iff.mp hlast]
    | some page =>
        have hne : pagesRead history ≠ [] := fun hnil => by simp [hnil] at hlast
        simp [hne]
  simp only [pageRequest, nextRequest, h.request, h.budget, hstart]

/-- The reader goes on to another page if that is wanted. -/
theorem hasNextPage_iff_of_tracks (h : Tracks start history reader)
    (hpages : pagesRead history ≠ []) : reader.hasNextPage ↔ start.WantsPage history := by
  have htoken : reader.last.isSome ↔ ∃ page token,
      (pagesRead history).getLast? = some page ∧ page.last = some token := by
    rw [h.last, Option.isSome_iff_exists]
    simp only [Option.bind_eq_some_iff]
    exact exists_comm
  have hbudget : reader.budget.all (0 < ·) ↔
      ∀ left, start.remaining history = some left → 0 < left := by
    rw [h.budget]
    cases start.remaining history <;> simp
  unfold hasNextPage WantsPage
  rw [Bool.and_eq_true, Bool.and_eq_true, htoken, hbudget, h.recursive]
  constructor
  · rintro ⟨⟨hrecursive, htoken⟩, hleft⟩
    exact ⟨h.unfailed, Or.inr ⟨hrecursive, htoken, hleft⟩⟩
  · rintro ⟨_, hnone | ⟨hrecursive, htoken, hleft⟩⟩
    · exact absurd hnone hpages
    · exact ⟨⟨hrecursive, htoken⟩, hleft⟩

/-- A reader that is about to turn the page has yielded everything, and a page is
wanted. -/
theorem ready_of_turns {bound : Reader} (h : Reached start history reader)
    (hconflict : ¬ start.HasConflict) (hturns : reader.Turns bound) :
    Tracks start history bound ∧ bound.phase = .bound ∧ bound.buffer = [] ∧
      start.WantsPage history := by
  cases hturns with
  | @first bound hphase hbind =>
      cases h with
      | configuring hfresh =>
          rw [bindOptions_of_not_hasConflict hconflict hfresh.budget] at hbind
          obtain rfl := Except.ok.inj hbind
          refine ⟨?_, rfl, hfresh.buffer, by simp, Or.inl rfl⟩
          exact
            { request := rfl, recursive := rfl, validator := rfl, incomplete := rfl
              pages := hfresh.pages
              last := hfresh.last
              budget := (remaining_nil start).symm
              unfailed := by simp
              buffered := by simp [hfresh.buffer, received] }
      | bound hphase' _ _ => rw [hphase'] at hphase; cases hphase
      | exhausted hphase' _ _ => rw [hphase'] at hphase; cases hphase
  | further hphase hbuffer hmore =>
      cases h with
      | configuring hfresh => rw [hfresh.phase] at hphase; cases hphase
      | bound _ htracks hpages =>
          exact ⟨htracks, hphase, hbuffer, (hasNextPage_iff_of_tracks htracks hpages).mp hmore⟩
      | exhausted hphase' _ _ => rw [hphase'] at hphase; cases hphase

/-! ### One move -/

/-- What was handed over is what was received, when nothing waits. -/
theorem results_eq_received (h : Tracks start history reader) (hbuffer : reader.buffer = []) :
    results history = start.received history := by
  rw [h.buffered, hbuffer, List.map_nil, List.append_nil]

/-- A page that was asked for was due. -/
theorem due_asked {bound : Reader} (htracks : Tracks start history bound)
    (hbuffer : bound.buffer = []) (hwants : start.WantsPage history)
    (answer : Except Fault Page) :
    start.Due history (.asked (bound.pageRequest.exchange answer)) := by
  refine ⟨results_eq_received htracks hbuffer, hwants, answer, ?_⟩
  rw [pageRequest_of_tracks htracks]

/-- After a page the reader holds its items, its token and what it left of the budget. -/
theorem tracks_loaded {bound : Reader} (h : Tracks start history bound)
    (request : PageRequest) (page : Page) :
    Tracks start (history ++ [.asked (request.exchange (.ok page))])
      { bound.afterPage page with buffer := bound.buffer ++ page.items } := by
  have hanswers : answers (history ++ [.asked (request.exchange (.ok page))]) =
      answers history ++ [.ok page] := by simp
  have hpages : pagesRead (history ++ [.asked (request.exchange (.ok page))]) =
      pagesRead history ++ [page] := by simp
  exact
    { request := h.request, recursive := h.recursive, validator := h.validator
      incomplete := h.incomplete
      pages := by simp [afterPage, hpages, h.pages]
      last := by simp [afterPage, hpages]
      budget := by
        rw [remaining_asked_ok, ← h.budget]
        rfl
      unfailed := by
        intro fault hmem
        rw [hanswers, List.mem_append, List.mem_singleton] at hmem
        rcases hmem with hmem | hmem
        · exact h.unfailed fault hmem
        · cases hmem
      buffered := by
        rw [received_append, h.buffered]
        simp [received] }

/-- After an item was taken from the buffer the others remain. -/
theorem tracks_yielded {raw : Item} {rest : List Item} (h : Tracks start history reader)
    (hbuffer : reader.buffer = raw :: rest) :
    Tracks start (history ++ [.yielded (start.validated raw)]) { reader with buffer := rest } := by
  have hbuffered := h.buffered
  rw [hbuffer, List.map_cons] at hbuffered
  exact
    { request := h.request, recursive := h.recursive, validator := h.validator
      incomplete := h.incomplete
      pages := by simpa [pagesRead] using h.pages
      last := by simpa [pagesRead] using h.last
      budget := by simpa [remaining, scanned, pagesRead] using h.budget
      unfailed := by simpa using h.unfailed
      buffered := by
        rw [received_append, hbuffered]
        simp [received] }

/-- When everything is yielded and no page is wanted, the end is announced. -/
theorem reached_ended (hfollows : start.Follows history)
    (hall : results history = start.received history) (hstop : ¬ start.WantsPage history)
    (hphase : left.phase = .exhausted) :
    start.Follows (history ++ [.ended]) ∧ Reached start (history ++ [.ended]) left := by
  have hanswers : answers (history ++ [.ended]) = answers history := by simp
  refine ⟨hfollows.next ⟨hall, hstop⟩, .exhausted hphase ?_ ?_⟩
  · rw [results_append, received_append, hall]
    simp [received]
  · exact fun hwants => hstop ((wantsPage_congr hanswers).mp hwants)

/-- When a page fails, the fault is yielded and nothing is wanted any more, since the failed page
stays in the history. -/
theorem reached_failed {bound : Reader} (hfollows : start.Follows history)
    (htracks : Tracks start history bound) (hbuffer : bound.buffer = [])
    (hwants : start.WantsPage history) (fault : Fault) (hphase : left.phase = .exhausted) :
    let asked := Event.asked (bound.pageRequest.exchange (.error fault))
    start.Follows (history ++ [asked, .yielded (.error fault)]) ∧
      Reached start (history ++ [asked, .yielded (.error fault)]) left := by
  intro asked
  have hall := results_eq_received htracks hbuffer
  have hreceived : start.received (history ++ [asked]) =
      results (history ++ [asked]) ++ [.error fault] := by
    rw [received_append, results_append, hall]
    simp [received, asked]
  have hasked : start.Follows (history ++ [asked]) :=
    hfollows.next (due_asked htracks hbuffer hwants (.error fault))
  have hyielded : start.Due (history ++ [asked]) (.yielded (.error fault)) :=
    ⟨[], by rw [List.append_nil, hreceived]⟩
  have hsplit : history ++ [asked, .yielded (.error fault)] =
      history ++ [asked] ++ [.yielded (.error fault)] := by simp
  rw [hsplit]
  refine ⟨hasked.next hyielded, .exhausted hphase ?_ ?_⟩
  · rw [received_append, results_append, hreceived]
    simp [received]
  · intro hwants'
    refine hwants'.1 fault ?_
    rw [answers_append, answers_append, answers_asked]
    simp

/-- **One move keeps the law.**  Every event of the move was due, and the reader that is
left is in the state that the longer history leads to. -/
theorem reached_step (hconflict : ¬ start.HasConflict) (hfollows : start.Follows history)
    (h : Reached start history reader) (hstep : reader.Step exchanges move left) :
    start.Follows (history ++ Pull.events ⟨exchanges, move⟩) ∧
      Reached start (history ++ Pull.events ⟨exchanges, move⟩) left := by
  cases hstep with
  | exhausted hphase =>
      cases h with
      | configuring hfresh => rw [hfresh.phase] at hphase; cases hphase
      | bound hphase' _ _ => rw [hphase'] at hphase; cases hphase
      | exhausted _ hall hstop => exact reached_ended hfollows hall hstop hphase
  | conflict hphase hbind =>
      cases h with
      | configuring hfresh =>
          rw [bindOptions_of_not_hasConflict hconflict hfresh.budget] at hbind
          cases hbind
      | bound hphase' _ _ => rw [hphase'] at hphase; cases hphase
      | exhausted hphase' _ _ => rw [hphase'] at hphase; cases hphase
  | @loaded bound hturns page =>
      obtain ⟨htracks, hphase, hbuffer, hwants⟩ := ready_of_turns h hconflict hturns
      refine ⟨hfollows.next (due_asked htracks hbuffer hwants _), .bound hphase ?_ ?_⟩
      · exact tracks_loaded htracks _ page
      · simp [Pull.events, Move.events]
  | @failed bound hturns fault =>
      obtain ⟨htracks, hphase, hbuffer, hwants⟩ := ready_of_turns h hconflict hturns
      exact reached_failed hfollows htracks hbuffer hwants fault rfl
  | @yielded raw rest hphase hbuffer =>
      cases h with
      | configuring hfresh => rw [hfresh.phase] at hphase; cases hphase
      | exhausted hphase' _ _ => rw [hphase'] at hphase; cases hphase
      | bound _ htracks hpages =>
          have hresult : reader.validator.check raw reader.yieldsIncomplete =
              start.validated raw := congrFun htracks.validated raw
          have hanswers : answers (history ++ [.yielded (start.validated raw)]) =
              answers history := by simp
          rw [hresult]
          refine ⟨hfollows.next ?_, .bound hphase (tracks_yielded htracks hbuffer) ?_⟩
          · show results history ++ [start.validated raw] <+: start.received history
            rw [htracks.buffered, hbuffer, List.map_cons]
            exact ⟨rest.map start.validated, by simp⟩
          · show pagesRead (history ++ [.yielded (start.validated raw)]) ≠ []
            rwa [pagesRead, hanswers]
  | ended hphase hbuffer hlast =>
      cases h with
      | configuring hfresh => rw [hfresh.phase] at hphase; cases hphase
      | exhausted hphase' _ _ => rw [hphase'] at hphase; cases hphase
      | bound _ htracks hpages =>
          have hall := results_eq_received htracks hbuffer
          have hstop : ¬ start.WantsPage history := fun hwants =>
            hlast ((hasNextPage_iff_of_tracks htracks hpages).mpr hwants)
          exact reached_ended hfollows hall hstop rfl

/-! ### Runs and calls -/

/-- A run keeps the law. -/
theorem reached_steps {events : List Event} (hconflict : ¬ start.HasConflict)
    (hfollows : start.Follows history) (h : Reached start history reader)
    (hsteps : Steps reader events left) :
    start.Follows (history ++ events) ∧ Reached start (history ++ events) left := by
  induction hsteps generalizing history with
  | refl reader =>
      rw [List.append_nil]
      exact ⟨hfollows, h⟩
  | step hstep hrest ih =>
      obtain ⟨hfollows', h'⟩ := reached_step hconflict hfollows h hstep
      rw [← List.append_assoc]
      exact ih hfollows' h'

/-- A run of a configured reader whose options do not conflict obeys the law. -/
theorem Configured.reached {events : List Event} (hconfigured : start.Configured)
    (hconflict : ¬ start.HasConflict) (hsteps : Steps start events left) :
    start.Follows events ∧ Reached start events left := by
  have hall := reached_steps hconflict .start (.configuring hconfigured.fresh) hsteps
  rwa [List.nil_append] at hall

/-- **Any number of calls keeps the law.** -/
theorem reached_pulls {calls : List Nat} {pulls : List Pull} (hconflict : ¬ start.HasConflict)
    (hfollows : start.Follows history) (h : Reached start history reader)
    (hpulls : Pulls calls reader pulls left) :
    start.Follows (history ++ historyOf pulls) ∧
      Reached start (history ++ historyOf pulls) left := by
  induction hpulls generalizing history with
  | nil reader =>
      rw [historyOf, List.flatMap_nil, List.append_nil]
      exact ⟨hfollows, h⟩
  | cons hnext hrest ih =>
      obtain ⟨hfollows', h'⟩ := reached_steps hconflict hfollows h hnext.steps
      rw [historyOf, List.flatMap_cons, ← List.append_assoc]
      exact ih hfollows' h'

/-! ### Delivery -/

/-- The calls of a run deliver what the pages hold. -/
structure Delivers (start : Reader) (calls : List Nat) (pulls : List Pull) : Prop where
  /-- Every call gives one result or announces the end, unless all of its moves turned
  pages. -/
  one_each : List.Forall₂
    (fun moves pull => pull.outcome = .turned → pull.exchanges.length = moves + 1) calls pulls
  /-- At any time the results are the first of those that were received, in order. -/
  in_order : ∀ before, before <+: historyOf pulls → results before <+: start.received before
  /-- As long as something that was received was not yielded, it is yielded next. -/
  yields : ∀ before event, before ++ [event] <+: historyOf pulls →
    ((∃ result, event = .yielded result) ↔ results before ≠ start.received before)
  /-- Only when everything was yielded a page is asked for, exactly if one is wanted. -/
  asks : ∀ before event, before ++ [event] <+: historyOf pulls →
    ((∃ exchange, event = .asked exchange) ↔
      results before = start.received before ∧ start.WantsPage before)
  /-- Otherwise the end is announced. -/
  ends : ∀ before event, before ++ [event] <+: historyOf pulls →
    (event = .ended ↔ results before = start.received before ∧ ¬ start.WantsPage before)
  /-- Each page is asked for where the one before it ended. -/
  requests : ∀ before exchange, before ++ [.asked exchange] <+: historyOf pulls →
    exchange.call = (start.nextRequest before).toCall
  /-- A reader that is not recursive asks once, in the first call. -/
  one_request : start.recursive = false →
    (pulls.flatMap Pull.exchanges).length = min calls.length 1
  /-- A page that fails is yielded by the call that asked for it, and it is the last thing
  that is sent or yielded. -/
  fault_last : ∀ front pull back exchange fault, pulls = front ++ pull :: back →
    exchange ∈ pull.exchanges → exchange.page? = some (.error fault) →
    pull.outcome = .yielded (.error fault) ∧ ∀ later ∈ back, later = ⟨[], .ended⟩
  /-- After the end nothing is sent or yielded. -/
  end_last : ∀ front pull back, pulls = front ++ pull :: back → pull.outcome = .ended →
    ∀ later ∈ back, later = ⟨[], .ended⟩

/-- **Every item once, in order, and not before it is asked for.**  Whatever the store
answers and however often it is called, a configured reader whose options do not
conflict yields the validated items of the pages it receives, faults in their places,
and asks for a page exactly when everything before it was yielded and the page is
wanted. -/
theorem delivers_pulls (hconfigured : start.Configured) (hconflict : ¬ start.HasConflict)
    (store : Store σ) (calls : List Nat) (state : σ) :
    start.Delivers calls (start.pulls store calls state).1.1 := by
  have hpulls := pulls_pulls store calls start state
  generalize (start.pulls store calls state).1.1 = pulls at hpulls ⊢
  have hfollows : start.Follows (historyOf pulls) :=
    (reached_pulls hconflict .start (.configuring hconfigured.fresh) hpulls).1
  exact
    { one_each := hpulls.one_each
      in_order := fun before hbefore => (hfollows.of_isPrefix hbefore).results_isPrefix
      yields := fun before event hbefore => (due_iff (hfollows.due hbefore)).1
      asks := fun before event hbefore => (due_iff (hfollows.due hbefore)).2.1
      ends := fun before event hbefore => (due_iff (hfollows.due hbefore)).2.2
      requests := by
        intro before exchange hbefore
        obtain ⟨_, _, answer, rfl⟩ := hfollows.due hbefore
        exact PageRequest.call_exchange _ answer
      one_request := by
        intro hrecursive
        have hmost := hfollows.length_exchanges_le_one hrecursive
        have hleast := hfollows.length_exchanges_pos
        rw [exchanges_historyOf] at hmost hleast
        by_cases hcalls : calls = []
        · subst hcalls
          cases hpulls
          rfl
        · have hfirst := hleast (hpulls.historyOf_ne_nil hcalls)
          have hlength : 0 < calls.length := List.length_pos_iff.mpr hcalls
          omega
      fault_last := by
        rintro front pull back exchange fault rfl hmem hfault
        obtain ⟨moves, later, before, after, hnext, hrest⟩ := hpulls.split
        obtain ⟨houtcome, hphase⟩ := hnext.failed_of_mem hmem hfault
        exact ⟨houtcome, hrest.eq_of_exhausted hphase⟩
      end_last := by
        rintro front pull back rfl houtcome
        obtain ⟨moves, later, before, after, hnext, hrest⟩ := hpulls.split
        rw [houtcome] at hnext
        exact hrest.eq_of_exhausted hnext.exhausted_of_ended }

/-- Three pages, the second of them empty and the third failing, and one item that does not
pass.  The third call has a single move, and spends it on the empty page. -/
theorem delivers_pulls_script :
    let item (k : String) : Item := [("k", .text k)]
    let pass : Validator := fun raw _ =>
      if raw = item "b" then .error [("k", ["no"])] else .ok raw
    let reader : Reader :=
      { Reader.ofRequest { access := .scan, read := { table := "t", start := some (item "0") } }
          pass false with recursive := true }
    let script : List ScriptedAnswer :=
      [{ page := { items := [item "a", item "b"], last := some (item "1") } },
        { page := { last := some (item "2") } },
        { fault := some (.throttled "slow down") }]
    let pulls := (reader.pulls scriptedStore [1, 1, 0, 5, 5] script).1.1
    reader.Delivers [1, 1, 0, 5, 5] pulls ∧
      results (historyOf pulls) =
        [.ok (item "a"), .error (.invalid [("k", ["no"])]), .error (.throttled "slow down")] ∧
      (pulls.flatMap Pull.exchanges).map Exchange.call =
        [.scan { table := "t", start := some (item "0") },
          .scan { table := "t", start := some (item "1") },
          .scan { table := "t", start := some (item "2") }] := by
  intro item pass reader script pulls
  have hconfigured : reader.Configured := .set (.ofRequest _ _ _) .recursively rfl
  have hconflict : ¬ reader.HasConflict := fun h => absurd h.2.1 (by decide)
  exact ⟨delivers_pulls hconfigured hconflict scriptedStore _ script, by rfl, by rfl⟩

/-- A page that reports the least number of 32 bits leaves less than nothing of a limit of five,
so no other page is asked for. -/
example :
    let reader : Reader :=
      { Reader.ofRequest { access := .scan, read := { table := "t", limit := some 5 } }
          Validator.none false with recursive := true, acrossPages := true }
    let script : List ScriptedAnswer :=
      [{ page := { last := some [("k", .text "a")], scanned := Int32.minValue } }]
    let pulls := (reader.pulls scriptedStore [1] script).1.1
    pulls.map Pull.events = [[.asked ⟨.scan { table := "t", limit := some 5 },
      .ok { last := some [("k", .text "a")], scanned := Int32.minValue }⟩, .ended]] := by
  decide +kernel

end Reader

end KeywordTable
