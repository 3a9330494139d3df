import KeywordTable.Proofs.Paging.Delivery

/-!
# The requests of a read

Yielding and counting ask for pages under one law: each request is for the page that is
wanted after the answers so far.  `Wanted` says so of a list of exchanges, without the
results that are yielded between them.

What is wanted depends on little of the answers, namely on whether one was a fault and on
the **marks** of the pages: where each one ends, and how many items it looked at.
-/

namespace KeywordTable

open Event

/-- What of the pages decides how to go on: where they end, and how many items they looked
at. -/
def Event.marks (history : List Event) : List (Option Item × Int32) :=
  (pagesRead history).map fun page => (page.last, page.scanned)

/-- Where the page starts that a call asks for, and how many items it may look at. -/
def Call.window? : Call → Option (Option Item × Option Int32)
  | .query _ _ read => some (read.start, read.limit)
  | .scan read => some (read.start, read.limit)
  | _ => none

/-- A page is asked for with the window of its request. -/
theorem PageRequest.window?_exchange (request : PageRequest) (answer : Except Fault Page) :
    (request.exchange answer).call.window? = some (request.read.start, request.read.limit) := by
  obtain ⟨access, read⟩ := request
  cases access <;> rfl

namespace Reader

variable {start : Reader} {history later : List Event} {exchanges before : List Exchange}
  {exchange : Exchange}

/-- Each exchange asked for the page that was wanted then. -/
inductive Wanted (start : Reader) : List Exchange → Prop
  | nil : Wanted start []
  | snoc {exchanges : List Exchange} (h : Wanted start exchanges)
      (hwants : start.WantsPage (exchanges.map .asked)) (answer : Except Fault Page) :
      Wanted start (exchanges ++ [(start.nextRequest (exchanges.map .asked)).exchange answer])

/-- Of exchanges that were wanted, the first ones were wanted as well. -/
theorem Wanted.of_isPrefix (h : start.Wanted exchanges) (hbefore : before <+: exchanges) :
    start.Wanted before := by
  induction h with
  | nil =>
      rw [List.prefix_nil.mp hbefore]
      exact .nil
  | snoc h hwants answer ih =>
      rcases List.prefix_concat_iff.mp hbefore with rfl | hbefore
      · exact h.snoc hwants answer
      · exact ih hbefore

/-- An exchange is made when a page is wanted, and asks for it. -/
theorem Wanted.wants (h : start.Wanted exchanges) (hbefore : before ++ [exchange] <+: exchanges) :
    start.WantsPage (before.map .asked) ∧
      ∃ answer, exchange = (start.nextRequest (before.map .asked)).exchange answer := by
  generalize hlonger : before ++ [exchange] = longer at hbefore
  have hlast := h.of_isPrefix hbefore
  cases hlast with
  | nil => exact absurd hlonger (by simp)
  | snoc _ hwants answer =>
      obtain ⟨rfl, hexchange⟩ := List.append_inj' hlonger rfl
      exact ⟨hwants, answer, List.singleton_inj.mp hexchange⟩

/-- Who wanted pages and was not refused has read one. -/
theorem Wanted.pagesRead_ne_nil (h : start.Wanted exchanges) (hne : exchanges ≠ [])
    (hunfailed : ∀ fault, .error fault ∉ answers (exchanges.map .asked)) :
    pagesRead (exchanges.map .asked) ≠ [] := by
  cases h with
  | nil => exact absurd rfl hne
  | snoc h hwants answer =>
      cases answer with
      | ok page => simp
      | error fault => exact absurd (by simp) (hunfailed fault)

/-- What the next page is depends on the answers so far. -/
theorem nextRequest_congr (h : answers later = answers history) :
    start.nextRequest later = start.nextRequest history := by
  simp only [nextRequest, nextStart, remaining, scanned_congr h, pagesRead, h]

/-- What was answered in exchanges alone. -/
theorem answers_exchanges (history : List Event) :
    answers ((Event.exchanges history).map .asked) = answers history := by
  rw [answers, exchanges_asked, answers]

/-- Yielding asks for the pages that are wanted. -/
theorem Follows.wanted (h : start.Follows history) : start.Wanted (Event.exchanges history) := by
  induction h with
  | start => exact .nil
  | @next history event h hdue ih =>
      rw [exchanges_append]
      cases event with
      | yielded result | ended => simpa using ih
      | asked exchange =>
          obtain ⟨_, hwants, answer, rfl⟩ := hdue
          have hanswers := answers_exchanges history
          rw [← nextRequest_congr hanswers]
          exact ih.snoc ((wantsPage_congr hanswers).mpr hwants) answer

/-- When the end was announced, everything was yielded and no page is wanted. -/
theorem done_of_ended (hconfigured : start.Configured) (hconflict : ¬ start.HasConflict)
    {left : Reader} (hsteps : Steps start history left) (hended : .ended ∈ history) :
    results history = start.received history ∧ ¬ start.WantsPage history := by
  obtain ⟨-, hreached⟩ := hconfigured.reached hconflict hsteps
  obtain ⟨_, _, _, _, _, _, hend⟩ := hsteps.split_ended hended
  have hphase := hend.exhausted_of_ended
  cases hreached with
  | configuring hfresh => rw [hfresh.phase] at hphase; cases hphase
  | bound hphase' _ _ => rw [hphase'] at hphase; cases hphase
  | exhausted _ hall hstop => exact ⟨hall, hstop⟩

/-- Where a list goes on, there is something that comes next. -/
theorem exists_prefix_of_lt {n : Nat} (h : n < exchanges.length) :
    ∃ before exchange, before ++ [exchange] <+: exchanges ∧ before.length = n := by
  refine ⟨exchanges.take n, exchanges.get ⟨n, h⟩, ?_, by simp; omega⟩
  have hnext : exchanges.take n ++ [exchanges.get ⟨n, h⟩] = exchanges.take (n + 1) := by
    simp
  rw [hnext]
  exact List.take_prefix _ _

/-! ### What decides -/

/-- Where the next page starts can be told from the marks alone. -/
theorem nextStart_eq_marks (start : Reader) (history : List Event) :
    start.nextStart history =
      match (marks history).getLast? with
      | none => start.request.read.start
      | some mark => mark.1 := by
  rw [nextStart, marks, List.getLast?_map]
  cases (pagesRead history).getLast? <;> rfl

/-- How much was looked at is told by the marks. -/
theorem scanned_eq_marks (history : List Event) :
    scanned history = ((marks history).map fun mark => mark.2.toInt).sum := by
  rw [scanned, marks, List.map_map]
  rfl

/-- What is left of the limit depends on the marks. -/
theorem remaining_congr (h : marks later = marks history) :
    start.remaining later = start.remaining history := by
  rw [remaining, remaining, scanned_eq_marks, scanned_eq_marks, h]

/-- So can whether another page is wanted. -/
theorem wantsPage_iff_marks (start : Reader) (history : List Event) :
    start.WantsPage history ↔
      (∀ fault, .error fault ∉ answers history) ∧
        (marks history = [] ∨ start.recursive = true ∧
          (∃ token scanned, (marks history).getLast? = some (some token, scanned)) ∧
          ∀ left, start.remaining history = some left → 0 < left) := by
  have hlast : (∃ page token, (pagesRead history).getLast? = some page ∧ page.last = some token) ↔
      ∃ token scanned, (marks history).getLast? = some (some token, scanned) := by
    rw [marks, List.getLast?_map]
    cases (pagesRead history).getLast? with
    | none => simp
    | some page => simp
  rw [WantsPage, hlast, marks, List.map_eq_nil_iff]

end Reader

end KeywordTable
