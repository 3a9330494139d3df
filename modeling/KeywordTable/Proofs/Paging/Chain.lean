import KeywordTable.Proofs.Paging.Runs
import KeywordTable.Script

/-!
# Reading all pages at once, or one reader a page

A reader that is not recursive reads one page, and `again` makes the reader that goes on
after it.  A **chain** reads one such reader after the other, each until it announces its
end, up to the one that has no page to go on with.

The main result, `shows_iff_chain`, says that a chain shows what a recursive reader with
the same options shows: the same requests with the same answers, the same results, the
same end.  It speaks of everything that can be seen at any time, so it covers runs in
which a page fails and runs that never end.

The proof follows both at once.  `Linked` says how the recursive reader and the reader
that the chain has come to belong together: they are about to ask for the same page, or
they hold the same rest of a page, or both are at their end.  A move of one is a move of
the other (`Linked.forth`, `Linked.back`), but for one move of the chain that is not seen:
from the end of a page to the next reader.
-/

namespace KeywordTable

variable {σ : Type}

open Event

namespace Reader

/-- What is seen when one reader is read after the other, each until it announces its end,
and each going on where the one before it ended. -/
inductive Chain (store : Store σ) : Reader → σ → List Event → Prop
  /-- No further than the calls to this reader; if it ends, no reader goes on after it. -/
  | within {reader left : Reader} {state later : σ} {events : List Event}
      (hshows : Shows store reader state events left later)
      (hlast : .ended ∈ events → left.again = .error .noMorePages) :
      Chain store reader state events
  /-- The end of this reader is not seen, because another one goes on after it. -/
  | onward {reader left fresh : Reader} {state later : σ} {events more : List Event}
      (hshows : Shows store reader state (events ++ [.ended]) left later)
      (hopen : .ended ∉ events) (hagain : left.again = .ok fresh)
      (hrest : Chain store fresh later more) :
      Chain store reader state (events ++ more)

/-! ### Readers of the same pages -/

/-- A recursive reader and one that is not, with the same options otherwise and without a
limit. -/
structure Twins (whole link : Reader) : Prop where
  request : ∀ start, whole.request.window start none = link.request.window start none
  validator : whole.validator = link.validator
  incomplete : whole.incomplete = link.incomplete
  recursive : whole.recursive = true
  single : link.recursive = false
  unlimited : whole.request.read.limit = none ∧ link.request.read.limit = none
  unbounded : whole.budget = none ∧ link.budget = none

/-- Both are about to ask for the same page. -/
structure Poised (whole bound link : Reader) : Prop where
  turns : whole.Turns bound
  twins : Twins bound link
  buffer : bound.buffer = []
  fresh : link.Fresh
  request : bound.pageRequest = link.request

/-- How a recursive reader and the reader that a chain has come to belong together. -/
inductive Linked (whole link : Reader) : Prop
  | poised {bound : Reader} (hpoised : Poised whole bound link)
  /-- Both hold what is left of the same page. -/
  | reading (hwhole : whole.phase = .bound) (hlink : link.phase = .bound)
      (htwins : Twins whole link) (hbuffer : whole.buffer = link.buffer)
      (hlast : whole.last = link.last) (hpages : whole.pages ≠ 0)
  /-- Both are at their end. -/
  | spent (hwhole : whole.phase = .exhausted) (hlink : link.phase = .exhausted)
      (hlast : link.last = none)

variable {whole bound link left : Reader} {exchanges : List Exchange} {events : List Event}
  {move : Move}

/-- Twins make the same of an item. -/
theorem Twins.validated (h : Twins whole link) : whole.validated = link.validated := by
  have hselection : whole.request.read.selection = link.request.read.selection :=
    congrArg (·.read.selection) (h.request none)
  unfold Reader.validated yieldsIncomplete
  rw [h.validator, h.incomplete, hselection]

/-- The same answer leaves both with the same page. -/
theorem Twins.linked_afterAnswer (htwins : Twins whole link) (hwhole : whole.phase = .bound)
    (hlink : link.phase = .bound) (hbuffer : whole.buffer = link.buffer)
    (hlast : link.last = none) (answer : Except Fault Page) :
    (link.afterAnswer answer).1 = (whole.afterAnswer answer).1 ∧
      Linked (whole.afterAnswer answer).2 (link.afterAnswer answer).2 := by
  refine ⟨by cases answer <;> rfl, ?_⟩
  cases answer with
  | ok page =>
      have hbudget : (whole.afterPage page).budget = none ∧ (link.afterPage page).budget = none := by
        simp [afterPage, htwins.unbounded]
      refine .reading hwhole hlink { htwins with unbounded := hbudget } ?_ rfl (Nat.succ_ne_zero _)
      simp [afterAnswer, hbuffer]
  | error fault => exact .spent rfl rfl hlast

/-- A link that is poised turns the page. -/
theorem Poised.linkTurns (h : Poised whole bound link) : link.Turns link.fixed :=
  h.fresh.turns (not_hasConflict_of_unlimited h.twins.unlimited.2)

/-- Both ask for the same page, and the answer leads both to the same. -/
theorem Poised.same (h : Poised whole bound link) (answer : Except Fault Page) :
    link.fixed.pageRequest = bound.pageRequest ∧
      (link.fixed.afterAnswer answer).1 = (bound.afterAnswer answer).1 ∧
      Linked (bound.afterAnswer answer).2 (link.fixed.afterAnswer answer).2 := by
  have hbudget : bound.budget = none ∧ link.fixed.budget = none :=
    ⟨h.twins.unbounded.1, by simp [fixed, allowance, h.twins.single]⟩
  have htwins : Twins bound link.fixed := { h.twins with unbounded := hbudget }
  refine ⟨h.fresh.pageRequest_fixed.trans h.request.symm, ?_⟩
  exact htwins.linked_afterAnswer h.turns.phase_eq h.linkTurns.phase_eq
    (h.buffer.trans h.fresh.buffer.symm) h.fresh.last answer

/-- At the end of a page the next reader of the chain asks for what the recursive reader
asks for. -/
theorem Twins.poised {key : Item} (htwins : Twins whole link) (hphase : whole.phase = .bound)
    (hbuffer : whole.buffer = []) (hlast : whole.last = some key) (hpages : whole.pages ≠ 0) :
    Poised whole whole (link.startingAfter key) := by
  have hmore : whole.hasNextPage := by
    simp [hasNextPage, htwins.recursive, hlast, htwins.unbounded.1]
  have hrequest : whole.pageRequest = (link.startingAfter key).request := by
    show whole.request.window _ _ = link.request.window (some key) _
    rw [if_neg hpages, hlast, htwins.unbounded.1, htwins.unlimited.1, htwins.unlimited.2]
    exact htwins.request (some key)
  exact
    { turns := .further hphase hbuffer hmore
      twins := { htwins with unbounded := ⟨htwins.unbounded.1, rfl⟩ }
      buffer := hbuffer, fresh := fresh_startingAfter link key, request := hrequest }

/-! ### A move of one is a move of the other -/

/-- Every move of the recursive reader is a move of the reader that the chain has come to,
or of the one that goes on after it. -/
theorem Linked.forth (h : Linked whole link) (hstep : whole.Step exchanges move left) :
    (∃ after, link.Step exchanges move after ∧ Linked left after ∧
      (move = .ended → after.again = .error .noMorePages)) ∨
    ∃ ended fresh after, link.Step [] .ended ended ∧ ended.again = .ok fresh ∧
      fresh.Step exchanges move after ∧ Linked left after ∧ move ≠ .ended := by
  have hturn : ∀ {bound next}, Poised whole bound next → ∃ after, next.Step exchanges move after ∧
      Linked left after ∧ move ≠ .ended := by
    intro bound next hpoised
    obtain ⟨answer, rfl, hafter⟩ := hstep.eq_of_turns hpoised.turns
    obtain ⟨rfl, rfl⟩ := Prod.mk.inj hafter
    obtain ⟨hrequest, hmove, hlinked⟩ := hpoised.same answer
    have hmatch := hpoised.linkTurns.step answer
    rw [hrequest, hmove] at hmatch
    exact ⟨_, hmatch, hlinked, by cases answer <;> exact nofun⟩
  cases h with
  | poised hpoised =>
      obtain ⟨after, hmatch, hlinked, hmove⟩ := hturn hpoised
      exact .inl ⟨after, hmatch, hlinked, fun hended => absurd hended hmove⟩
  | reading hwhole hlink htwins hbuffer hlast hpages =>
      cases hraw : whole.buffer with
      | cons raw rest =>
          obtain ⟨rfl, rfl, rfl⟩ := hstep.eq_of_buffer hwhole hraw
          have hmatch := Step.yielded hlink (hbuffer ▸ hraw)
          have hresult : link.validator.check raw link.yieldsIncomplete =
              whole.validator.check raw whole.yieldsIncomplete := congrFun htwins.validated.symm raw
          rw [hresult] at hmatch
          exact .inl ⟨_, hmatch, .reading hwhole hlink { htwins with } rfl hlast hpages, nofun⟩
      | nil =>
          have hend := Step.ended hlink (hbuffer ▸ hraw) (by simp [hasNextPage, htwins.single])
          cases hkey : whole.last with
          | none =>
              have hstop : ¬ whole.hasNextPage := by simp [hasNextPage, hkey]
              obtain ⟨rfl, rfl, rfl⟩ := hstep.eq_of_last hwhole hraw hstop
              have hnone : link.last = none := hlast ▸ hkey
              exact .inl ⟨_, hend, .spent rfl rfl hnone, fun _ => again_eq_error hnone⟩
          | some key =>
              obtain ⟨after, hmatch, hlinked, hmove⟩ :=
                hturn (htwins.poised hwhole hraw hkey hpages)
              exact .inr ⟨_, _, after, hend, again_eq_ok (hlast ▸ hkey), hmatch, hlinked, hmove⟩
  | spent hwhole hlink hlast =>
      obtain ⟨rfl, rfl, rfl⟩ := hstep.eq_of_exhausted hwhole
      exact .inl ⟨link, .exhausted hlink, .spent hwhole hlink hlast, fun _ => again_eq_error hlast⟩

/-- Every move of the reader that the chain has come to is a move of the recursive reader,
unless another reader goes on after it. -/
theorem Linked.back (h : Linked whole link) (hstep : link.Step exchanges move left) :
    (∃ after, whole.Step exchanges move after ∧ Linked after left ∧
      (move = .ended → left.again = .error .noMorePages)) ∨
    ∃ fresh, exchanges = [] ∧ move = .ended ∧ left.again = .ok fresh ∧ Linked whole fresh := by
  cases h with
  | poised hpoised =>
      obtain ⟨answer, rfl, hafter⟩ := hstep.eq_of_turns hpoised.linkTurns
      obtain ⟨rfl, rfl⟩ := Prod.mk.inj hafter
      obtain ⟨hrequest, hmove, hlinked⟩ := hpoised.same answer
      have hmatch := hpoised.turns.step answer
      rw [← hrequest, ← hmove] at hmatch
      exact .inl ⟨_, hmatch, hlinked, by cases answer <;> exact nofun⟩
  | reading hwhole hlink htwins hbuffer hlast hpages =>
      cases hraw : link.buffer with
      | cons raw rest =>
          obtain ⟨rfl, rfl, rfl⟩ := hstep.eq_of_buffer hlink hraw
          have hmatch := Step.yielded hwhole (hbuffer.trans hraw)
          have hresult : whole.validator.check raw whole.yieldsIncomplete =
              link.validator.check raw link.yieldsIncomplete := congrFun htwins.validated raw
          rw [hresult] at hmatch
          exact .inl ⟨_, hmatch, .reading hwhole hlink { htwins with } rfl hlast hpages, nofun⟩
      | nil =>
          have hsingle : ¬ link.hasNextPage := by simp [hasNextPage, htwins.single]
          obtain ⟨rfl, rfl, rfl⟩ := hstep.eq_of_last hlink hraw hsingle
          rcases Option.eq_none_or_eq_some link.last with hkey | ⟨key, hkey⟩
          · have hstop : ¬ whole.hasNextPage := by simp [hasNextPage, hlast, hkey]
            exact .inl ⟨_, .ended hwhole (hbuffer.trans hraw) hstop, .spent rfl rfl hkey,
              fun _ => again_eq_error hkey⟩
          · exact .inr ⟨_, rfl, rfl, again_eq_ok hkey,
              .poised (htwins.poised hwhole (hbuffer.trans hraw) (hlast.trans hkey) hpages)⟩
  | spent hwhole hlink hlast =>
      obtain ⟨rfl, rfl, rfl⟩ := hstep.eq_of_exhausted hlink
      exact .inl ⟨whole, .exhausted hwhole, .spent hwhole hlink hlast, fun _ => again_eq_error hlast⟩

/-! ### Runs -/

variable {store : Store σ} {state later : σ}

/-- Before the first call nothing is shown. -/
theorem shows_refl (reader : Reader) : Shows store reader state [] reader state :=
  shows_iff.mpr ⟨.refl reader, .nil state⟩

/-- A move that is not the end, and then the chain from there. -/
theorem Chain.step {middle : Reader} (hstep : link.Step exchanges move middle)
    (hserves : store.Serves state exchanges later) (hmove : move ≠ .ended)
    (hchain : Chain store middle later events) :
    Chain store link state (Pull.events ⟨exchanges, move⟩ ++ events) := by
  have hopen : .ended ∉ Pull.events ⟨exchanges, move⟩ := not_mem_events_of_ne hmove
  have hfirst : ∀ {more left final}, Shows store middle later more left final →
      Shows store link state (Pull.events ⟨exchanges, move⟩ ++ more) left final := by
    intro more left final hshows
    obtain ⟨hsteps, hserves'⟩ := shows_iff.mp hshows
    refine shows_iff.mpr ⟨.step hstep hsteps, ?_⟩
    rw [exchanges_append, exchanges_events]
    exact Store.serves_append.mpr ⟨later, hserves, hserves'⟩
  cases hchain with
  | within hshows hlast =>
      refine .within (hfirst hshows) fun hended => hlast ?_
      exact (List.mem_append.mp hended).resolve_left hopen
  | @onward _ _ fresh _ _ events more hshows hopen' hagain hrest =>
      rw [← List.append_assoc]
      refine .onward ?_ ?_ hagain hrest
      · rw [List.append_assoc]
        exact hfirst hshows
      · rw [List.mem_append, not_or]
        exact ⟨hopen, hopen'⟩

/-- At the end of a chain nothing but the end is seen, however often it is asked. -/
theorem chain_ended (hend : link.Step [] .ended left) (hagain : left.again = .error .noMorePages)
    (count : Nat) : Chain store link state (List.replicate (count + 1) .ended) := by
  have hsteps : Steps link (List.replicate (count + 1) .ended) left :=
    .step hend (steps_exhausted hend.exhausted_of_ended count)
  have hsilent : Event.exchanges (List.replicate (count + 1) .ended) = [] := by
    simp [Event.exchanges]
  have hserves : store.Serves state (Event.exchanges (List.replicate (count + 1) .ended)) state := by
    rw [hsilent]
    exact .nil state
  exact .within (shows_iff.mpr ⟨hsteps, hserves⟩) fun _ => hagain

/-- What a recursive reader shows is shown by a chain. -/
theorem Linked.chain (h : Linked whole link) (hsteps : Steps whole events left)
    (hserves : store.Serves state (Event.exchanges events) later) :
    Chain store link state events := by
  induction hsteps generalizing link state with
  | refl whole => exact .within (shows_refl link) fun hended => absurd hended List.not_mem_nil
  | @step whole middle left exchanges move events hstep hrest ih =>
      rw [exchanges_append, exchanges_events] at hserves
      obtain ⟨between, hfirst, hmore⟩ := Store.serves_append.mp hserves
      rcases h.forth hstep with ⟨after, hmatch, hlinked, hlast⟩ |
        ⟨ended, fresh, after, hend, hagain, hmatch, hlinked, hmove⟩
      · by_cases hmove : move = .ended
        · subst hmove
          obtain rfl := hstep.exchanges_of_ended
          obtain ⟨-, count, rfl⟩ := hrest.eq_of_exhausted hstep.exhausted_of_ended
          exact chain_ended hmatch (hlast rfl) count
        · exact (ih hlinked hmore).step hmatch hfirst hmove
      · have hnext : Chain store fresh state (Pull.events ⟨exchanges, move⟩ ++ events) :=
          (ih hlinked hmore).step hmatch hfirst hmove
        have hshows : Shows store link state ([] ++ [.ended]) ended state :=
          shows_iff.mpr ⟨hend.steps, .nil state⟩
        have hchain : Chain store link state ([] ++ (Pull.events ⟨exchanges, move⟩ ++ events)) :=
          .onward hshows List.not_mem_nil hagain hnext
        exact hchain

/-- The recursive reader shows what the reader shows that the chain has come to, up to the
end of the latter. -/
theorem Linked.steps (h : Linked whole link) (hsteps : Steps link events left)
    (hopen : .ended ∉ events) : ∃ after, Steps whole events after ∧ Linked after left := by
  induction hsteps generalizing whole with
  | refl link => exact ⟨whole, .refl whole, h⟩
  | @step link middle left exchanges move events hstep hrest ih =>
      rw [List.mem_append, not_or] at hopen
      rcases h.back hstep with ⟨after, hmatch, hlinked, -⟩ | ⟨fresh, rfl, rfl, -, -⟩
      · obtain ⟨last, hlast, hlinked'⟩ := ih hlinked hopen.2
        exact ⟨last, .step hmatch hlast, hlinked'⟩
      · exact absurd (List.mem_singleton_self _) hopen.1

/-- What a chain shows is shown by a recursive reader. -/
theorem Chain.shows (hchain : Chain store link state events) (h : Linked whole link) :
    ∃ left later, Shows store whole state events left later := by
  induction hchain generalizing whole with
  | @within link left state later events hshows hlast =>
      obtain ⟨hsteps, hserves⟩ := shows_iff.mp hshows
      by_cases hended : .ended ∈ events
      · obtain ⟨before, middle, count, rfl, hopen, hbefore, hend⟩ := hsteps.split_ended hended
        obtain ⟨after, hafter, hlinked⟩ := h.steps hbefore hopen
        rcases hlinked.back hend with ⟨last, hmatch, -, -⟩ | ⟨fresh, -, -, hagain, -⟩
        · have htail : Steps after (List.replicate (count + 1) .ended) last :=
            .step hmatch (steps_exhausted hmatch.exhausted_of_ended count)
          exact ⟨last, later, shows_iff.mpr ⟨hafter.trans htail, hserves⟩⟩
        · rw [hlast hended] at hagain
          cases hagain
      · obtain ⟨after, hafter, -⟩ := h.steps hsteps hended
        exact ⟨after, later, shows_iff.mpr ⟨hafter, hserves⟩⟩
  | @onward link left fresh state later events more hshows hopen hagain hrest ih =>
      obtain ⟨hsteps, hserves⟩ := shows_iff.mp hshows
      obtain ⟨middle, hbefore, hend⟩ := hsteps.split_last hopen
      obtain ⟨after, hafter, hlinked⟩ := h.steps hbefore hopen
      rcases hlinked.back hend with ⟨_, _, _, hlast⟩ | ⟨next, -, -, hagain', hnext⟩
      · rw [hlast rfl] at hagain
        cases hagain
      · obtain rfl : next = fresh := Except.ok.inj (hagain'.symm.trans hagain)
        obtain ⟨last, finally', hshows'⟩ := ih hnext
        obtain ⟨hsteps', hserves'⟩ := shows_iff.mp hshows'
        refine ⟨last, finally', shows_iff.mpr ⟨hafter.trans hsteps', ?_⟩⟩
        rw [exchanges_append]
        refine Store.serves_append.mpr ⟨later, ?_, hserves'⟩
        simpa [Event.exchanges] using hserves

/-- Readers that are linked show the same. -/
theorem Linked.chain_iff (h : Linked whole link) :
    (∃ left later, Shows store whole state events left later) ↔
      Chain store link state events := by
  constructor
  · rintro ⟨left, later, hshows⟩
    obtain ⟨hsteps, hserves⟩ := shows_iff.mp hshows
    exact h.chain hsteps hserves
  · exact fun hchain => hchain.shows h

/-- A reader that has read nothing and the same reader with the option to read on. -/
theorem Fresh.linked (hfresh : link.Fresh) (hsingle : link.recursive = false)
    (hlimit : link.request.read.limit = none) : Linked { link with recursive := true } link := by
  have hwhole : Fresh { link with recursive := true } :=
    ⟨hfresh.phase, hfresh.buffer, hfresh.pages, hfresh.budget, hfresh.last⟩
  have hallowance : allowance { link with recursive := true } = none := by
    simp [allowance, hlimit]
  have htwins : Twins (fixed { link with recursive := true }) link :=
    { request := fun _ => rfl, validator := rfl, incomplete := rfl, recursive := rfl
      single := hsingle, unlimited := ⟨hlimit, hlimit⟩
      unbounded := ⟨hallowance, hfresh.budget⟩ }
  exact .poised
    { turns := hwhole.turns (not_hasConflict_of_unlimited hlimit)
      twins := htwins, buffer := hfresh.buffer, fresh := hfresh
      request := hwhole.pageRequest_fixed }

/-- **All pages at once, or one reader a page.**  Whatever the store is and whatever it
answers, everything that can be seen of a recursive reader without a limit is seen of the
chain of readers that has the same options and does not read on, and the other way
round. -/
theorem shows_iff_chain {reader : Reader} (hconfigured : reader.Configured)
    (hsingle : reader.recursive = false) (hlimit : reader.request.read.limit = none)
    (hwhole : reader.recursively = .ok whole) (store : Store σ) (state : σ)
    (events : List Event) :
    (∃ left later, Shows store whole state events left later) ↔
      Chain store reader state events := by
  have hchange := configure_eq_ok hwhole
  obtain rfl := Except.ok.inj hchange
  exact (hconfigured.fresh.linked hsingle hlimit).chain_iff

/-- A chain of three readers, of which the second reads an empty page and the third fails,
and an item that does not pass. -/
theorem chain_script :
    let item (k : String) : Item := [("k", .text k)]
    let pass : Validator := fun raw _ =>
      if raw = item "b" then .error [("k", ["no"])] else .ok raw
    let reader : Reader :=
      .ofRequest { access := .scan, read := { table := "t", start := some (item "0") } } pass false
    let whole : Reader := { reader with recursive := true }
    let script : List ScriptedAnswer :=
      [{ page := { items := [item "a", item "b"], last := some (item "1") } },
        { page := { last := some (item "2") } },
        { fault := some (.throttled "slow down") }]
    let pulls := (whole.pulls scriptedStore [1, 1, 1, 1] script).1.1
    Chain scriptedStore reader script (historyOf pulls) ∧
      results (historyOf pulls) =
        [.ok (item "a"), .error (.invalid [("k", ["no"])]), .error (.throttled "slow down")] ∧
      (Event.exchanges (historyOf pulls)).map Exchange.call =
        [.scan { table := "t", start := some (item "0") },
          .scan { table := "t", start := some (item "1") },
          .scan { table := "t", start := some (item "2") }] ∧
      pulls.getLast?.map Pull.outcome = some .ended := by
  intro item pass reader whole script pulls
  have hconfigured : reader.Configured := .ofRequest _ _ _
  have hchain := (shows_iff_chain hconfigured rfl rfl rfl scriptedStore script _).mp
    ⟨_, _, shows_pulls scriptedStore whole script [1, 1, 1, 1]⟩
  exact ⟨hchain, by rfl, by rfl, by rfl⟩

end Reader

end KeywordTable
