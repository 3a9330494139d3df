import KeywordTable.Proofs.FailFast
import KeywordTable.Proofs.Paging.Counting
import Mathlib.Data.List.Induction

/-!
# Options are open until the first page and fixed by it

Of a list of options all that counts is which of them were taken, and the last argument of
each (`Options.of`).  The local fact is `Setting.apply_eq_ok_iff`, which says what one option
does and when it is accepted.  From it, by induction at the end of the list,
`configureAll_eq` says which reader accepted options lead to, and `exists_configureAll_iff`
that options are accepted together if each of them is.

The first call for an item fixes the options, whatever comes of it (`Steps.phase_ne`).  From
then on no option is accepted and nothing can be counted (`frozen_of_phase_ne`).  All calls
that are made are for the same read (`Wanted.asks`): they differ in where the page starts
and, when a limit is spent across pages, in how many items it may look at.  The main result,
`settles`, puts this together.
-/

namespace KeywordTable

variable {σ : Type}

open Event

/-- The same items, in descending order if they have an order. -/
def Access.descending : Access → Access
  | .query keyCondition _ => .query keyCondition (some false)
  | .scan => .scan

/-- The call for the page of the same read that starts here and looks at no more than so
many items. -/
def Call.window (call : Call) (start : Option Item) (limit : Option Int32) : Call :=
  match call with
  | .query keyCondition forward read => .query keyCondition forward { read with start, limit }
  | .scan read => .scan { read with start, limit }
  | other => other

/-- How many items the page may look at that a call asks for. -/
def Call.limit? (call : Call) : Option Int32 := call.window?.bind Prod.snd

/-- A page starts and is limited in the request as in the call. -/
theorem PageRequest.toCall_window (request : PageRequest) (start : Option Item)
    (limit : Option Int32) :
    (request.window start limit).toCall = request.toCall.window start limit := by
  obtain ⟨access, read⟩ := request
  cases access <;> rfl

/-- The limit of a request is the limit of its call. -/
theorem PageRequest.limit?_toCall (request : PageRequest) :
    request.toCall.limit? = request.read.limit := by
  obtain ⟨access, read⟩ := request
  cases access <;> rfl

namespace Reader

variable {start reader changed left : Reader} {settings : List Setting} {setting : Setting}
  {events : List Event} {exchanges : List Exchange}

/-! ### Options in any order -/

/-- Which options were taken, and with which argument. -/
structure Options where
  limit : Option Int32
  start : Option Item
  consistent : Bool
  reverse : Bool
  attributes : Option (List String)
  recursively : Bool
  limitAcrossPages : Bool

/-- The options of a list: those that occur in it, each with its last argument. -/
def Options.of (settings : List Setting) : Options where
  limit := (settings.filterMap fun | .limit size => some size | _ => none).getLast?
  start := (settings.filterMap fun | .start key => some key | _ => none).getLast?
  consistent := settings.any fun | .consistent => true | _ => false
  reverse := settings.any fun | .reverse => true | _ => false
  attributes :=
    (settings.filterMap fun | .specificAttributes names => some names | _ => none).getLast?
  recursively := settings.any fun | .recursively => true | _ => false
  limitAcrossPages := settings.any fun | .limitAcrossPages => true | _ => false

/-- The options and one more. -/
def Options.add (options : Options) : Setting → Options
  | .limit size => { options with limit := some size }
  | .start key => { options with start := some key }
  | .consistent => { options with consistent := true }
  | .reverse => { options with reverse := true }
  | .specificAttributes names => { options with attributes := some names }
  | .recursively => { options with recursively := true }
  | .limitAcrossPages => { options with limitAcrossPages := true }

/-- The option that was taken last is added last. -/
theorem Options.of_append (settings : List Setting) (setting : Setting) :
    Options.of (settings ++ [setting]) = (Options.of settings).add setting := by
  cases setting <;> simp [Options.of, Options.add]

/-- The attributes that are returned with these options. -/
def Options.Selects (options : Options) (start : Reader) (selection : Selection) : Prop :=
  match options.attributes with
  | none => selection = start.request.read.selection
  | some names => Selection.parse names = .ok selection

/-- The reader that has taken these options, with the attributes that it returns. -/
def taking (start : Reader) (options : Options) (selection : Selection) : Reader :=
  { start with
    request :=
      { access := if options.reverse then start.request.access.descending else start.request.access
        read := { start.request.read with
          limit := options.limit <|> start.request.read.limit
          start := options.start <|> start.request.read.start
          consistent := if options.consistent then some true else start.request.read.consistent
          selection } }
    recursive := options.recursively || start.recursive
    acrossPages := options.limitAcrossPages || start.acrossPages }

/-- Options select attributes in one way only. -/
theorem Options.Selects.unique {options : Options} {selection other : Selection}
    (h : options.Selects start selection) (hother : options.Selects start other) :
    other = selection := by
  cases hattributes : options.attributes with
  | none =>
      simp only [Selects, hattributes] at h hother
      rw [h, hother]
  | some names =>
      simp only [Selects, hattributes] at h hother
      rw [h] at hother
      exact (Except.ok.inj hother).symm

/-- One more option. -/
theorem Setting.Sets.taking {options : Options} {selection : Selection}
    (hselects : options.Selects start selection)
    (h : setting.Sets (start.taking options selection) changed) :
    ∃ selection, (options.add setting).Selects start selection ∧
      changed = start.taking (options.add setting) selection := by
  cases h with
  | limit | start | consistent | recursively | limitAcrossPages => exact ⟨selection, hselects, rfl⟩
  | specificAttributes hparse => exact ⟨_, hparse, rfl⟩
  | @reverse keyCondition forward haccess =>
      have hdescending : start.request.access.descending = .query keyCondition (some false) := by
        simp only [Reader.taking] at haccess
        split at haccess
        · cases hbase : start.request.access <;> simp_all [Access.descending]
        · rw [haccess]
          rfl
      refine ⟨selection, hselects, ?_⟩
      simp only [Reader.taking, Options.add, if_true, hdescending]
      rfl

/-- Options are applied one after the other. -/
theorem configureAll_append (start : Reader) (settings : List Setting) (setting : Setting) :
    start.configureAll (settings ++ [setting]) = start.configureAll settings >>= setting.apply := by
  simp [configureAll, List.foldlM_append]

/-- **Which reader accepted options lead to.** -/
theorem configureAll_eq (h : start.configureAll settings = .ok changed) :
    ∃ selection, (Options.of settings).Selects start selection ∧
      changed = start.taking (Options.of settings) selection := by
  induction settings using List.reverseRecOn generalizing changed with
  | nil =>
      cases h
      exact ⟨start.request.read.selection, rfl, rfl⟩
  | append_singleton settings setting ih =>
      rw [configureAll_append] at h
      obtain ⟨middle, hmiddle, hset⟩ := bind_eq_ok_iff.mp h
      obtain ⟨selection, hselects, rfl⟩ := ih hmiddle
      rw [Options.of_append]
      exact (Setting.apply_eq_ok_iff.mp hset).2.taking hselects

/-- Options that are the same but for their order and for arguments that were replaced lead
to the same reader. -/
theorem configureAll_congr {others : List Setting} {other : Reader}
    (h : start.configureAll settings = .ok changed) (hother : start.configureAll others = .ok other)
    (hsame : Options.of settings = Options.of others) : other = changed := by
  obtain ⟨selection, hselects, rfl⟩ := configureAll_eq h
  obtain ⟨selection', hselects', rfl⟩ := configureAll_eq hother
  rw [← hsame] at hselects' ⊢
  rw [hselects.unique hselects']

/-! ### Which options are accepted -/

/-- What an option demands, besides a reader that is configuring. -/
def Setting.Suits (access : Access) : Setting → Prop
  | .reverse => access ≠ .scan
  | .specificAttributes names => ∃ selection, Selection.parse names = .ok selection
  | _ => True

/-- An option can be set as long as nothing was read, if it suits the kind of read. -/
theorem Setting.exists_apply_iff :
    (∃ changed, setting.apply reader = .ok changed) ↔
      reader.phase = .configuring ∧ setting.Suits reader.request.access := by
  simp only [Setting.apply_eq_ok_iff, exists_and_left]
  refine and_congr_right fun _ => ⟨?_, fun hsuits => ?_⟩
  · rintro ⟨changed, hsets⟩
    cases hsets with
    | limit | start | consistent | recursively | limitAcrossPages => trivial
    | reverse haccess => exact fun hscan => by simp [haccess] at hscan
    | specificAttributes hparse => exact ⟨_, hparse⟩
  · cases setting with
    | limit size => exact ⟨_, .limit size⟩
    | start key => exact ⟨_, .start key⟩
    | consistent => exact ⟨_, .consistent⟩
    | recursively => exact ⟨_, .recursively⟩
    | limitAcrossPages => exact ⟨_, .limitAcrossPages⟩
    | specificAttributes names =>
        obtain ⟨selection, hparse⟩ := hsuits
        exact ⟨_, .specificAttributes hparse⟩
    | reverse =>
        cases haccess : reader.request.access with
        | query keyCondition forward => exact ⟨_, .reverse haccess⟩
        | scan => exact absurd haccess hsuits

/-- Options leave it as it is whether there is an order to reverse. -/
theorem Setting.suits_taking (start : Reader) (options : Options) (selection : Selection) :
    setting.Suits (start.taking options selection).request.access ↔
      setting.Suits start.request.access := by
  cases setting with
  | reverse =>
      simp only [Setting.Suits, taking]
      cases start.request.access <;> cases options.reverse <;> simp [Access.descending]
  | _ => exact Iff.rfl

/-- An option is accepted after others if it is accepted without them. -/
theorem Setting.exists_apply_taking_iff (start : Reader) (options : Options)
    (selection : Selection) :
    (∃ changed, setting.apply (start.taking options selection) = .ok changed) ↔
      ∃ changed, setting.apply start = .ok changed := by
  rw [exists_apply_iff, exists_apply_iff, suits_taking]
  exact Iff.rfl

/-- **Options are accepted** together if each of them is, in any order. -/
theorem exists_configureAll_iff (start : Reader) (settings : List Setting) :
    (∃ changed, start.configureAll settings = .ok changed) ↔
      ∀ setting ∈ settings, ∃ changed, setting.apply start = .ok changed := by
  induction settings using List.reverseRecOn with
  | nil => exact iff_of_true ⟨start, rfl⟩ fun _ h => absurd h List.not_mem_nil
  | append_singleton settings setting ih =>
      rw [List.forall_mem_append, List.forall_mem_singleton, ← ih, configureAll_append]
      constructor
      · rintro ⟨changed, h⟩
        obtain ⟨middle, hmiddle, hset⟩ := bind_eq_ok_iff.mp h
        refine ⟨⟨middle, hmiddle⟩, ?_⟩
        obtain ⟨selection, -, rfl⟩ := configureAll_eq hmiddle
        exact (Setting.exists_apply_taking_iff start _ selection).mp ⟨changed, hset⟩
      · rintro ⟨⟨middle, hmiddle⟩, hset⟩
        obtain ⟨selection, -, rfl⟩ := configureAll_eq hmiddle
        obtain ⟨changed, hchanged⟩ :=
          (Setting.exists_apply_taking_iff start (Options.of settings) selection).mpr hset
        exact ⟨changed, bind_eq_ok_iff.mpr ⟨_, hmiddle, hchanged⟩⟩

/-! ### Options that conflict -/

/-- All pages are read, and a limit caps a single one of them. -/
def Options.Conflict (options : Options) (start : Reader) : Prop :=
  (options.recursively || start.recursive) = true ∧
    (options.limit <|> start.request.read.limit).isSome ∧
    (options.limitAcrossPages || start.acrossPages) = false

/-- Whether options conflict depends on which were taken, not on their order. -/
theorem hasConflict_of_configureAll (h : start.configureAll settings = .ok changed) :
    changed.HasConflict ↔ (Options.of settings).Conflict start := by
  obtain ⟨selection, -, rfl⟩ := configureAll_eq h
  exact Iff.rfl

/-- A reader sends nothing only if its options conflict; a count of no page at all would be no
fault. -/
theorem sendsNothing_iff (hfresh : reader.Fresh) : reader.SendsNothing ↔ reader.HasConflict := by
  refine ⟨?_, sendsNothing_of_hasConflict hfresh⟩
  rintro ⟨reason, hsilent⟩
  by_contra hconflict
  obtain ⟨-, hcount⟩ := hsilent Unit (Store.paging fun _ _ => {}) () 0
  rw [count_eq hfresh hconflict] at hcount
  cases hcount

/-- Where the options conflict, the first move reports it and the reader is done. -/
theorem Step.eq_of_conflict {fault : Fault} {move : Move} (h : reader.Step exchanges move left)
    (hphase : reader.phase = .configuring) (hbind : reader.bindOptions = .error fault) :
    exchanges = [] ∧ move = .yielded (.error fault) ∧ left = reader.exhaust := by
  cases h with
  | conflict _ hbind' =>
      rw [hbind] at hbind'
      cases hbind'
      exact ⟨rfl, rfl, rfl⟩
  | exhausted hphase' | yielded hphase' _ | ended hphase' _ _ => simp_all
  | loaded hturns _ | failed hturns _ => cases hturns <;> simp_all

/-- A reader whose options conflict says so once, and asks for nothing. -/
theorem Steps.eq_of_hasConflict (h : Steps start events left) (hfresh : start.Fresh)
    (hconflict : start.HasConflict) :
    events = [] ∨ ∃ reason count,
      events = .yielded (.error (.conflictingOptions reason)) :: List.replicate count .ended := by
  obtain ⟨reason, hbind, -⟩ := bindOptions_of_hasConflict hconflict
  cases h with
  | refl => exact .inl rfl
  | step hstep hrest =>
      obtain ⟨rfl, rfl, rfl⟩ := hstep.eq_of_conflict hfresh.phase hbind
      obtain ⟨-, count, rfl⟩ := hrest.eq_of_exhausted rfl
      exact .inr ⟨reason, count, rfl⟩

/-- A reader that is done exchanges nothing. -/
theorem exchanges_replicate_ended (count : Nat) :
    Event.exchanges (List.replicate count .ended) = [] := by
  simp [Event.exchanges]

theorem results_replicate_ended (count : Nat) : results (List.replicate count .ended) = [] := by
  simp [results]

/-- A reader whose options conflict never asks for a page. -/
theorem Steps.exchanges_of_hasConflict (h : Steps start events left) (hfresh : start.Fresh)
    (hconflict : start.HasConflict) : Event.exchanges events = [] := by
  rcases h.eq_of_hasConflict hfresh hconflict with rfl | ⟨reason, count, rfl⟩
  · rfl
  · exact exchanges_replicate_ended count

/-! ### Options that are fixed -/

/-- A move leaves a reader that takes no option any more. -/
theorem Step.phase_ne {move : Move} (h : reader.Step exchanges move left) :
    left.phase ≠ .configuring := by
  cases h with
  | exhausted hphase | yielded hphase _ => simp [hphase]
  | conflict _ _ | failed _ _ | ended _ _ _ => exact nofun
  | loaded hturns page => simp [afterPage, hturns.phase_eq]

/-- Once something has happened, no option can be set. -/
theorem Steps.phase_ne (h : Steps reader events left) (hne : events ≠ []) :
    left.phase ≠ .configuring := by
  induction h with
  | refl => exact absurd rfl hne
  | step hstep hrest ih =>
      cases hrest with
      | refl => exact hstep.phase_ne
      | step hstep' hrest' =>
          exact ih fun hnil => hstep'.events_ne_nil (List.append_eq_nil_iff.mp hnil).1

/-- No option is taken any more and nothing is counted, and no request is sent for that. -/
structure Frozen (reader : Reader) : Prop where
  settings : ∀ setting : Setting, setting.apply reader = .error .alreadyBound
  count : ∀ {τ : Type} (store : Store τ) (pages : Nat) (state : τ),
    Makes (fun _ store => reader.count store pages) store state [] (.error .alreadyBound) state

/-- Whatever is not being configured is frozen. -/
theorem frozen_of_phase_ne (h : reader.phase ≠ .configuring) : reader.Frozen where
  settings := Setting.apply_eq_error h
  count _ pages state :=
    makes_of_refused (if_neg h) (fun _ store => Reader.countPages store pages 0) state

/-! ### Which calls are made -/

/-- Two calls for the same read: all that may differ is where the page starts and, when a
limit is spent across pages, how many items it may look at. -/
def Alike (reader : Reader) (call other : Call) : Prop :=
  (∃ key limit, other = call.window key limit) ∧
    (reader.allowance = none → other.limit? = call.limit?)

/-- A call for a page of what a reader reads. -/
def Asks (reader : Reader) (call : Call) : Prop :=
  ∃ key limit, call = (reader.request.window key limit).toCall ∧
    (reader.allowance = none → limit = reader.request.read.limit)

/-- Two calls of one reader ask for pages alike. -/
theorem Asks.alike {call other : Call} (h : start.Asks call) (hother : start.Asks other) :
    start.Alike call other := by
  obtain ⟨key, limit, rfl, hlimit⟩ := h
  obtain ⟨key', limit', rfl, hlimit'⟩ := hother
  refine ⟨⟨key', limit', ?_⟩, fun hnone => ?_⟩
  · exact PageRequest.toCall_window (start.request.window key limit) key' limit'
  · rw [PageRequest.limit?_toCall, PageRequest.limit?_toCall]
    exact (hlimit' hnone).trans (hlimit hnone).symm

/-- Every page that is wanted is a page of what the reader reads. -/
theorem Wanted.asks {exchange : Exchange} (h : start.Wanted exchanges)
    (hmem : exchange ∈ exchanges) : start.Asks exchange.call := by
  obtain ⟨before, after, rfl⟩ := List.append_of_mem hmem
  have hprefix : before ++ [exchange] <+: before ++ exchange :: after := ⟨after, by simp⟩
  obtain ⟨-, answer, rfl⟩ := h.wants hprefix
  rw [PageRequest.call_exchange]
  refine ⟨_, _, rfl, fun hnone => ?_⟩
  rw [remaining, hnone]
  rfl

/-- The calls of a run are all for the same read. -/
theorem Configured.asks {exchange : Exchange} (hconfigured : start.Configured)
    (h : Steps start events left) (hmem : exchange ∈ Event.exchanges events) :
    start.Asks exchange.call := by
  by_cases hconflict : start.HasConflict
  · rw [h.exchanges_of_hasConflict hconfigured.fresh hconflict] at hmem
    exact absurd hmem List.not_mem_nil
  · exact (hconfigured.reached hconflict h).1.wanted.asks hmem

/-- The calls of a count are all for the same read. -/
theorem Configured.counting_asks {exchange : Exchange} {store : Store σ} {state later : σ}
    {pages : Nat} {outcome : Except Fault (Option Int)} (hconfigured : start.Configured)
    (h : Makes (fun _ store => start.count store pages) store state exchanges outcome later)
    (hmem : exchange ∈ exchanges) : start.counting.Asks exchange.call := by
  have hlogged := h.logged []
  rw [List.nil_append] at hlogged
  by_cases hconflict : start.HasConflict
  · obtain ⟨reason, hsilent⟩ := sendsNothing_of_hasConflict hconfigured.fresh hconflict
    rw [(hsilent _ store.logging (state, []) pages).2] at hlogged
    cases hlogged
    exact absurd hmem List.not_mem_nil
  · obtain ⟨exchanges', outcome', later', hlog, -, hcounts⟩ :=
      count_logging hconfigured.fresh hconflict store pages state
    rw [hlogged] at hlog
    cases hlog
    exact (hcounts.wanted_of_fresh (fresh_counting hconfigured.fresh) hconflict).1.asks hmem

/-- A reader that goes on after another first asks for what that one would ask for next. -/
theorem Configured.asks_again {fresh : Reader} (hconfigured : start.Configured)
    (h : Steps start events left) (hagain : left.again = .ok fresh) :
    ∃ call, fresh.FirstMakes call ∧ start.Asks call := by
  cases hlast : left.last with
  | none =>
      rw [again_eq_error hlast] at hagain
      cases hagain
  | some key =>
      rw [again_eq_ok hlast, h.startingAfter_eq] at hagain
      obtain rfl := Except.ok.inj hagain
      have hconflict : ¬ start.HasConflict := fun hconflict => by
        rw [h.last_eq, pagesRead, answers,
          h.exchanges_of_hasConflict hconfigured.fresh hconflict] at hlast
        simp [hconfigured.fresh.last] at hlast
      exact ⟨_, (fresh_startingAfter start key).firstMakes hconflict, some key, _, rfl,
        fun _ => rfl⟩

/-! ### Open until the first page, and then fixed -/

/-- Options may be taken in any order until the first call for an item, and that fixes
them. -/
structure Settles (start : Reader) : Prop where
  /-- No request is sent for an option. -/
  silent : ∀ {τ : Type} (store : Store τ) (state : τ) (settings : List Setting),
    Makes (fun _ _ => Run.ofExcept (start.configureAll settings)) store state []
      (start.configureAll settings) state
  /-- Options are accepted together if each of them is. -/
  accepted : ∀ settings, (∃ changed, start.configureAll settings = .ok changed) ↔
    ∀ setting ∈ settings, ∃ changed, setting.apply start = .ok changed
  /-- All that counts is which options occur, and the last argument of each. -/
  orderless : ∀ settings others changed other, start.configureAll settings = .ok changed →
    start.configureAll others = .ok other → Options.of settings = Options.of others →
    other = changed
  /-- A conflict is reported by the first call, also by one to count, in any order of the
  options. -/
  conflicts : ∀ settings changed, start.configureAll settings = .ok changed →
    (changed.SendsNothing ↔ (Options.of settings).Conflict start)
  /-- From the first call for an item on the options are fixed. -/
  frozen : ∀ {τ : Type} (store : Store τ) (state : τ) (history : List Event) (left : Reader)
    (later : τ), Shows store start state history left later → history ≠ [] → left.Frozen
  /-- All calls for pages are for the same read. -/
  alike : ∀ {τ : Type} (store : Store τ) (state : τ) (history : List Event) (left : Reader)
    (later : τ), Shows store start state history left later →
    ∀ exchange ∈ Event.exchanges history, ∀ other ∈ Event.exchanges history,
      start.Alike exchange.call other.call
  /-- So are those of a count. -/
  counts : ∀ {τ : Type} (store : Store τ) (state : τ) (pages : Nat) (exchanges : List Exchange)
    (outcome : Except Fault (Option Int)) (later : τ),
    Makes (fun _ store => start.count store pages) store state exchanges outcome later →
    ∀ exchange ∈ exchanges, ∀ other ∈ exchanges, start.Alike exchange.call other.call
  /-- So is the first call of a reader that goes on after this one. -/
  again : ∀ {τ : Type} (store : Store τ) (state : τ) (history : List Event) (left : Reader)
    (later : τ) (fresh : Reader), Shows store start state history left later →
    left.again = .ok fresh → ∃ call, fresh.FirstMakes call ∧
      ∀ exchange ∈ Event.exchanges history, start.Alike exchange.call call

/-- **Options are open until the first page and fixed by it**, for every reader of a query or
a scan that has read nothing yet. -/
theorem settles (hconfigured : start.Configured) : start.Settles where
  silent store state settings := makes_ofExcept (start.configureAll settings) state
  accepted := exists_configureAll_iff start
  orderless settings others changed other h hother hsame := configureAll_congr h hother hsame
  conflicts settings changed h := by
    rw [sendsNothing_iff (hconfigured.configureAll h).fresh, hasConflict_of_configureAll h]
  frozen store state history left later hshows hne :=
    frozen_of_phase_ne ((shows_iff.mp hshows).1.phase_ne hne)
  alike store state history left later hshows exchange hmem other hother := by
    obtain ⟨hsteps, -⟩ := shows_iff.mp hshows
    exact (hconfigured.asks hsteps hmem).alike (hconfigured.asks hsteps hother)
  counts store state pages exchanges outcome later h exchange hmem other hother :=
    (hconfigured.counting_asks h hmem).alike (hconfigured.counting_asks h hother)
  again store state history left later fresh hshows hagain := by
    obtain ⟨hsteps, -⟩ := shows_iff.mp hshows
    obtain ⟨call, hfirst, hasks⟩ := hconfigured.asks_again hsteps hagain
    exact ⟨call, hfirst, fun exchange hmem => (hconfigured.asks hsteps hmem).alike hasks⟩

/-- The same options in two orders, one of them with an argument that is replaced later.
What the limit still allows is the limit of the second page. -/
theorem settles_twoOrders :
    let base : Reader := .ofRequest { access := .scan, read := { table := "t" } } .none false
    let reader : Reader :=
      { base.modifyRead ({ · with limit := some 3 }) with recursive := true, acrossPages := true }
    let script : List ScriptedAnswer :=
      [{ page := { items := [[("k", .text "a")]], last := some [("k", .text "a")], scanned := 1 } },
        { page := { items := [[("k", .text "b")]], last := some [("k", .text "b")], scanned := 1 } }]
    let seen := reader.pulls scriptedStore [1, 1] script
    base.configureAll [.limit 5, .recursively, .limit 3, .limitAcrossPages] = .ok reader ∧
      base.configureAll [.limitAcrossPages, .limit 3, .recursively] = .ok reader ∧
      base.Settles ∧ reader.Settles ∧
      (Event.exchanges (historyOf seen.1.1)).map Exchange.call =
        [.scan { table := "t", limit := some 3 },
          .scan { table := "t", limit := some 2, start := some [("k", .text "a")] }] ∧
      seen.1.2.again.toOption.map (·.request.toCall) =
        some (.scan { table := "t", limit := some 3, start := some [("k", .text "b")] }) := by
  intro base reader script seen
  have hbase : base.Configured := .ofRequest _ _ _
  have hset : base.configureAll [.limitAcrossPages, .limit 3, .recursively] = .ok reader := by rfl
  exact ⟨by rfl, hset, settles hbase, settles (hbase.configureAll hset), by decide +kernel,
    by decide +kernel⟩

end Reader

end KeywordTable
