import KeywordTable.Proofs.Paging
import KeywordTable.Proofs.Paging.Options
import Mathlib.Algebra.Order.Ring.Int

/-!
# What is due

What happens while a caller asks a reader for one item after the other is written down
as a list of **events**: a page is asked for, a result is yielded, the end is announced.
From the events so far, and from the options of the reader alone, it is decided which
event is due next:

* while something that was received has not been yielded, the first such thing;
* otherwise a page, if the first one is missing or the last one names a successor that
  the options allow to read;
* otherwise the end.

A page that fails is received too, as a single fault.  `Follows` says that each event of
a history was due when it came.  Nothing here speaks of the state of a reader.
-/

namespace KeywordTable

/-- What can be seen of a reader from outside. -/
inductive Event where
  | asked (exchange : Exchange)
  | yielded (result : Except Fault Item)
  | ended
deriving DecidableEq

/-- The event that a call finishes with, if its moves sufficed. -/
def Move.events : Move → List Event
  | .yielded result => [.yielded result]
  | .turned => []
  | .ended => [.ended]

/-- The events of a call. -/
def Reader.Pull.events (pull : Reader.Pull) : List Event :=
  pull.exchanges.map Event.asked ++ pull.outcome.events

/-- The events of calls one after the other. -/
def Reader.historyOf (pulls : List Reader.Pull) : List Event :=
  pulls.flatMap Reader.Pull.events

namespace Event

/-- The exchanges that were made. -/
def exchanges (history : List Event) : List Exchange :=
  history.filterMap fun
    | .asked exchange => some exchange
    | _ => none

/-- The answers to the requests for pages. -/
def answers (history : List Event) : List (Except Fault Page) :=
  (exchanges history).filterMap Exchange.page?

/-- The pages that were read. -/
def pagesRead (history : List Event) : List Page := (answers history).filterMap Except.toOption

/-- The results that were yielded. -/
def results (history : List Event) : List (Except Fault Item) :=
  history.filterMap fun
    | .yielded result => some result
    | _ => none

/-- How many items were looked at, all pages together. -/
def scanned (history : List Event) : Int :=
  ((pagesRead history).map fun page => page.scanned.toInt).sum

/-- How many items match, all pages together. -/
def counted (history : List Event) : Int :=
  ((pagesRead history).map fun page => page.count.toInt).sum

end Event

open Event

namespace Reader

/-- What the validator makes of an item. -/
def validated (reader : Reader) (raw : Item) : Except Fault Item :=
  reader.validator.check raw reader.yieldsIncomplete

/-- What was received, in order: the validated items of every page, and the fault of a
page that failed. -/
def received (reader : Reader) (history : List Event) : List (Except Fault Item) :=
  (answers history).flatMap fun
    | .ok page => page.items.map reader.validated
    | .error fault => [.error fault]

/-- What is left of a limit that is spent across pages: the difference between the limit
and all that was looked at, as a number of 32 bits. -/
def remaining (reader : Reader) (history : List Event) : Option Int32 :=
  reader.allowance.map fun size => .ofInt (size.toInt - scanned history)

/-- What is left is the difference itself as long as 32 bits hold it. -/
theorem toInt_remaining {reader : Reader} {history : List Event} {size left : Int32}
    (hallowance : reader.allowance = some size) (hleft : reader.remaining history = some left)
    (hlow : -2 ^ 31 ≤ size.toInt - scanned history)
    (hhigh : size.toInt - scanned history < 2 ^ 31) :
    left.toInt = size.toInt - scanned history := by
  rw [remaining, hallowance] at hleft
  obtain rfl := Option.some.inj hleft
  exact Int32.toInt_ofInt_of_le hlow hhigh

/-- Where the next page starts: where the last one ended, and the first one where the
reader was told to. -/
def nextStart (reader : Reader) (history : List Event) : Option Item :=
  match (pagesRead history).getLast? with
  | none => reader.request.read.start
  | some page => page.last

/-- The request for the page after those that were read. -/
def nextRequest (reader : Reader) (history : List Event) : PageRequest :=
  { reader.request with
    read := { reader.request.read with
      start := reader.nextStart history
      limit := reader.remaining history <|> reader.request.read.limit } }

/-- No page failed, and the first page is missing or the last one names a successor
that may be read. -/
def WantsPage (reader : Reader) (history : List Event) : Prop :=
  (∀ fault, .error fault ∉ answers history) ∧
    (pagesRead history = [] ∨
      reader.recursive = true ∧
      (∃ page token, (pagesRead history).getLast? = some page ∧ page.last = some token) ∧
      ∀ left, reader.remaining history = some left → 0 < left)

/-- The event that is due. -/
def Due (reader : Reader) (history : List Event) : Event → Prop
  | .asked exchange => results history = reader.received history ∧ reader.WantsPage history ∧
      ∃ answer, exchange = (reader.nextRequest history).exchange answer
  | .yielded result => results history ++ [result] <+: reader.received history
  | .ended => results history = reader.received history ∧ ¬ reader.WantsPage history

/-- Every event was due when it came. -/
inductive Follows (reader : Reader) : List Event → Prop
  | start : Follows reader []
  | next {history : List Event} {event : Event} (h : Follows reader history)
      (hdue : reader.Due history event) : Follows reader (history ++ [event])

end Reader

/-! ### Histories grow at the end -/

@[simp]
theorem Event.answers_nil : answers [] = [] := rfl

@[simp]
theorem Event.pagesRead_nil : pagesRead [] = [] := rfl

@[simp]
theorem Event.results_nil : results [] = [] := rfl

@[simp]
theorem Event.scanned_nil : scanned [] = 0 := rfl

/-- What was exchanged in two parts of a history. -/
@[simp]
theorem Event.exchanges_append (history more : List Event) :
    Event.exchanges (history ++ more) = Event.exchanges history ++ Event.exchanges more :=
  List.filterMap_append

/-- Of exchanges alone, all were exchanged. -/
@[simp]
theorem Event.exchanges_asked (exchanges : List Exchange) :
    Event.exchanges (exchanges.map .asked) = exchanges := by
  simp [Event.exchanges, List.filterMap_map]

@[simp]
theorem Event.exchanges_yielded (result : Except Fault Item) :
    Event.exchanges [.yielded result] = [] := rfl

@[simp]
theorem Event.exchanges_ended : Event.exchanges [.ended] = [] := rfl

/-- What was answered in two parts of a history. -/
@[simp]
theorem Event.answers_append (history more : List Event) :
    answers (history ++ more) = answers history ++ answers more := by
  simp [answers]

/-- What was handed over in two parts of a history. -/
@[simp]
theorem Event.results_append (history more : List Event) :
    results (history ++ more) = results history ++ results more :=
  List.filterMap_append

/-- A page that was asked for was answered. -/
@[simp]
theorem Event.answers_asked (request : PageRequest) (answer : Except Fault Page)
    (history : List Event) :
    answers (.asked (request.exchange answer) :: history) = answer :: answers history := by
  simp [answers, Event.exchanges, request.page?_exchange answer]

@[simp]
theorem Event.answers_yielded (result : Except Fault Item) : answers [.yielded result] = [] := rfl

@[simp]
theorem Event.answers_ended : answers [.ended] = [] := rfl

/-- The pages that were read in two parts of a history. -/
@[simp]
theorem Event.pagesRead_append (history more : List Event) :
    pagesRead (history ++ more) = pagesRead history ++ pagesRead more := by
  simp [pagesRead]

/-- A page that came was read. -/
@[simp]
theorem Event.pagesRead_asked_ok (request : PageRequest) (page : Page) (history : List Event) :
    pagesRead (.asked (request.exchange (.ok page)) :: history) = page :: pagesRead history := by
  rw [pagesRead, answers_asked]
  rfl

/-- A page that failed was not read. -/
@[simp]
theorem Event.pagesRead_asked_error (request : PageRequest) (fault : Fault)
    (history : List Event) :
    pagesRead (.asked (request.exchange (.error fault)) :: history) = pagesRead history := by
  rw [pagesRead, answers_asked]
  rfl

@[simp]
theorem Event.pagesRead_yielded (result : Except Fault Item) :
    pagesRead [.yielded result] = [] := rfl

/-- What was looked at before and after adds up. -/
@[simp]
theorem Event.scanned_append (history more : List Event) :
    scanned (history ++ more) = scanned history + scanned more := by
  simp [scanned]

/-- A page that was read counts with what it looked at. -/
@[simp]
theorem Event.scanned_asked_ok (request : PageRequest) (page : Page) (history : List Event) :
    scanned (.asked (request.exchange (.ok page)) :: history) =
      page.scanned.toInt + scanned history := by
  simp [scanned]

/-- How much was looked at depends on the answers only. -/
theorem Event.scanned_congr {history later : List Event} (h : answers later = answers history) :
    scanned later = scanned history := by
  simp only [scanned, pagesRead, h]

@[simp]
theorem Event.results_asked (exchange : Exchange) : results [.asked exchange] = [] := rfl

@[simp]
theorem Event.results_yielded (result : Except Fault Item) :
    results [.yielded result] = [result] := rfl

@[simp]
theorem Event.results_ended : results [.ended] = [] := rfl

namespace Reader

/-- What was decided by the answers so far is decided by the same answers later. -/
theorem wantsPage_congr {reader : Reader} {history later : List Event}
    (h : answers later = answers history) :
    reader.WantsPage later ↔ reader.WantsPage history := by
  simp only [WantsPage, remaining, scanned_congr h, pagesRead, h]

/-- Before the first page the whole limit is left. -/
theorem remaining_nil (reader : Reader) : reader.remaining [] = reader.allowance := by
  have hwhole : (fun size : Int32 => Int32.ofInt (size.toInt - scanned [])) = id := by
    funext size
    exact (congrArg Int32.ofInt (Int.sub_zero _)).trans (Int32.ofInt_toInt size)
  rw [remaining, hwhole, Option.map_id, id_eq]

/-- A page takes what it looked at off what is left. -/
theorem remaining_asked_ok (reader : Reader) (history : List Event) (request : PageRequest)
    (page : Page) :
    reader.remaining (history ++ [.asked (request.exchange (.ok page))]) =
      (reader.remaining history).map (· - page.scanned) := by
  have hscanned : scanned (history ++ [.asked (request.exchange (.ok page))]) =
      scanned history + page.scanned.toInt := by simp
  rw [remaining, remaining, Option.map_map, hscanned]
  congr 1
  funext size
  show Int32.ofInt _ = Int32.ofInt _ - page.scanned
  rw [← Int.sub_sub, Int32.ofInt_sub, Int32.ofInt_toInt]

/-- What was received in two parts of a history. -/
theorem received_append (reader : Reader) (history more : List Event) :
    reader.received (history ++ more) = reader.received history ++ reader.received more := by
  simp [received]

variable {start : Reader} {history : List Event}

/-! ### What is true of a history in which everything was due -/

/-- A history in which everything was due has had nothing else before. -/
theorem Follows.of_isPrefix {before : List Event} (h : start.Follows history)
    (hbefore : before <+: history) : start.Follows before := by
  induction h with
  | start =>
      rw [List.prefix_nil.mp hbefore]
      exact .start
  | next h hdue ih =>
      rcases List.prefix_concat_iff.mp hbefore with rfl | hbefore
      · exact h.next hdue
      · exact ih hbefore

/-- Whatever happened in it was due when it happened. -/
theorem Follows.due {before : List Event} {event : Event} (h : start.Follows history)
    (hbefore : before ++ [event] <+: history) : start.Due before event := by
  generalize hlonger : before ++ [event] = longer at hbefore
  have hlast := h.of_isPrefix hbefore
  cases hlast with
  | start => exact absurd hlonger (by simp)
  | next _ hdue =>
      obtain ⟨rfl, hevent⟩ := List.append_inj' hlonger rfl
      obtain rfl := List.singleton_inj.mp hevent
      exact hdue

/-- The results so far are the first of those that were received. -/
theorem Follows.results_isPrefix (h : start.Follows history) :
    results history <+: start.received history := by
  induction h with
  | start => exact List.nil_prefix
  | @next history event h hdue ih =>
      rw [results_append, received_append]
      cases event with
      | asked exchange =>
          rw [results_asked, List.append_nil]
          exact ih.trans (List.prefix_append _ _)
      | yielded result =>
          rw [results_yielded]
          exact List.IsPrefix.trans hdue (List.prefix_append _ _)
      | ended =>
          rw [results_ended, List.append_nil]
          exact ih.trans (List.prefix_append _ _)

/-- A result is still to be yielded, or a page is still to be read, or nothing is. -/
theorem due_iff {event : Event} (hdue : start.Due history event) :
    ((∃ result, event = .yielded result) ↔ results history ≠ start.received history) ∧
      ((∃ exchange, event = .asked exchange) ↔
        results history = start.received history ∧ start.WantsPage history) ∧
      (event = .ended ↔
        results history = start.received history ∧ ¬ start.WantsPage history) := by
  cases event with
  | asked exchange =>
      obtain ⟨hall, hwants, _⟩ := hdue
      simp [hall, hwants]
  | ended =>
      obtain ⟨hall, hstop⟩ := hdue
      simp [hall, hstop]
  | yielded result =>
      have hmore : results history ≠ start.received history := by
        intro hall
        have hlength := List.IsPrefix.length_le hdue
        rw [← hall, List.length_append, List.length_singleton] at hlength
        omega
      simp [hmore]

/-- Every exchange was the request for a page. -/
theorem Follows.length_answers (h : start.Follows history) :
    (answers history).length = (Event.exchanges history).length := by
  induction h with
  | start => rfl
  | @next history event h hdue ih =>
      rw [answers_append, exchanges_append, List.length_append, List.length_append, ih]
      cases event with
      | asked exchange =>
          obtain ⟨_, _, answer, rfl⟩ := hdue
          rw [answers_asked]
          rfl
      | yielded result => rfl
      | ended => rfl

/-- A reader that is not recursive asks for one page. -/
theorem Follows.length_exchanges_le_one (h : start.Follows history)
    (hrecursive : start.recursive = false) : (Event.exchanges history).length ≤ 1 := by
  induction h with
  | start => exact Nat.zero_le 1
  | @next history event h hdue ih =>
      rw [exchanges_append]
      cases event with
      | yielded result => simpa [Event.exchanges] using ih
      | ended => simpa [Event.exchanges] using ih
      | asked exchange =>
          obtain ⟨_, ⟨hunfailed, hfirst⟩, _⟩ := hdue
          have hpages : pagesRead history = [] := by simpa [hrecursive] using hfirst
          have hanswers : answers history = [] := by
            refine List.eq_nil_iff_forall_not_mem.mpr fun answer hmem => ?_
            cases answer with
            | error fault => exact hunfailed fault hmem
            | ok page =>
                have hpage : page ∈ pagesRead history :=
                  List.mem_filterMap.mpr ⟨_, hmem, rfl⟩
                rw [hpages] at hpage
                exact absurd hpage List.not_mem_nil
          have hnone := h.length_answers
          rw [hanswers, List.length_nil] at hnone
          rw [List.length_append, ← hnone]
          exact Nat.le_refl 1

/-- The first thing to happen is that a page is asked for. -/
theorem Follows.length_exchanges_pos (h : start.Follows history) (hne : history ≠ []) :
    0 < (Event.exchanges history).length := by
  obtain ⟨event, rest, rfl⟩ := List.exists_cons_of_ne_nil hne
  have hdue : start.Due [] event := h.due ⟨rest, rfl⟩
  have hwants : start.WantsPage [] := ⟨by simp, Or.inl rfl⟩
  obtain ⟨exchange, rfl⟩ := (due_iff hdue).2.1.mpr ⟨rfl, hwants⟩
  exact Nat.zero_lt_succ _

/-- Something happens in every call. -/
theorem Pull.events_ne_nil {pull : Pull} {moves : Nat}
    (h : pull.outcome = .turned → pull.exchanges.length = moves + 1) : pull.events ≠ [] := by
  obtain ⟨exchanges, outcome⟩ := pull
  cases outcome with
  | turned =>
      intro hnil
      have hexchanges : exchanges = [] := by simpa [Pull.events, Move.events] using hnil
      have hlength := h rfl
      simp [hexchanges] at hlength
  | yielded result => simp [Pull.events, Move.events]
  | ended => simp [Pull.events, Move.events]

/-- Who has called has seen something happen. -/
theorem Pulls.historyOf_ne_nil {calls : List Nat} {pulls : List Pull} {left : Reader}
    (h : Pulls calls start pulls left) (hcalls : calls ≠ []) : historyOf pulls ≠ [] := by
  cases h.one_each with
  | nil => exact absurd rfl hcalls
  | cons hfirst _ =>
      intro hnil
      exact Pull.events_ne_nil hfirst (List.append_eq_nil_iff.mp hnil).1

/-- What happens in a call are its exchanges, and then its move. -/
@[simp]
theorem exchanges_events (pull : Pull) : Event.exchanges pull.events = pull.exchanges := by
  have houtcome : Event.exchanges pull.outcome.events = [] := by
    cases pull.outcome <;> rfl
  rw [Pull.events, exchanges_append, exchanges_asked, houtcome, List.append_nil]

/-- What was exchanged in calls is what each of them exchanged. -/
theorem exchanges_historyOf (pulls : List Pull) :
    Event.exchanges (historyOf pulls) = pulls.flatMap Pull.exchanges := by
  induction pulls with
  | nil => rfl
  | cons pull pulls ih =>
      rw [historyOf, List.flatMap_cons, exchanges_append, exchanges_events, List.flatMap_cons, ← ih]
      rfl

end Reader

end KeywordTable
