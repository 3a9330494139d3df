import KeywordTable.Batch
import KeywordTable.Proofs.Conversation
import Mathlib.Data.List.Forall2
import Mathlib.Data.List.Perm.Basic
import Mathlib.Data.List.Perm.Subperm

/-!
# What a batch can do

A group of a batch is sent in **rounds**: each round submits what the one before left
over.  `Resends` says which rounds a group can take, `SendsGroups` which rounds a whole
batch can take, for any answers; `makes_writeGroups` and `makes_readGroups` tie them to the
functions that run.  Both can be cut at any round (`SendsGroups.split`), and what is submitted
next is what was left over or the next group (`SendsGroups.next`).

A round **does** some of what was submitted, if the others are left over and these are not
all (`Does`).  When every round does something, a batch is at any time **underway**: its
first groups are done, one after the other and each in some order, then a part of the next
one is, and the rest of that group and the groups behind it remain
(`SendsGroups.underway`).  So there are no more rounds than things to do
(`SendsGroups.length_le`), and a group that may take as many rounds as it has things to do
is not given up (`not_exhausted`).
-/

namespace KeywordTable

variable {σ α β ρ : Type}

/-- One round of a group: what was submitted, and the answer. -/
structure Round (α ρ : Type) where
  submitted : List α
  answer : Except Fault ρ

/-- The rounds of a group so far, what is pending after them, and the fault if the last
one failed. -/
inductive Resends (left : ρ → List α) :
    List α → List (Round α ρ) → List α → Option Fault → Prop
  | start (pending : List α) : Resends left pending [] pending none
  | failed {pending : List α} (hne : pending ≠ []) (fault : Fault) :
      Resends left pending [⟨pending, .error fault⟩] pending (some fault)
  | again {pending rest : List α} {rounds : List (Round α ρ)} {fault? : Option Fault}
      (hne : pending ≠ []) (answer : ρ)
      (hmore : Resends left (left answer) rounds rest fault?) :
      Resends left pending (⟨pending, .ok answer⟩ :: rounds) rest fault?

/-- The rounds of groups so far, one group after the other, and what remains of them. -/
inductive SendsGroups (left : ρ → List α) :
    List (List α) → List (Round α ρ) → List (List α) → Option Fault → Prop
  | nil : SendsGroups left [] [] [] none
  | done {group : List α} {groups remaining : List (List α)} {rounds more : List (Round α ρ)}
      {fault? : Option Fault} (hgroup : Resends left group rounds [] none)
      (hmore : SendsGroups left groups more remaining fault?) :
      SendsGroups left (group :: groups) (rounds ++ more) remaining fault?
  | stopped {group rest : List α} (groups : List (List α)) {rounds : List (Round α ρ)}
      {fault? : Option Fault} (hgroup : Resends left group rounds rest fault?) :
      SendsGroups left (group :: groups) rounds (rest :: groups) fault?

/-- A group took all the rounds that it was allowed, and something of it is left. -/
def Exhausted (left : ρ → List α) (bound : Nat) (groups : List (List α))
    (rounds : List (Round α ρ)) : Prop :=
  ∃ group ∈ groups, ∃ tries rest, Resends left group tries rest none ∧ rest ≠ [] ∧
    tries.length = bound ∧ ∀ round ∈ tries, round ∈ rounds

/-- The fault, if there was one, and else this. -/
def orFault (fault? : Option Fault) (result : β) : Except Fault β :=
  match fault? with
  | none => .ok result
  | some fault => .error fault

/-- A group that took all its rounds did so, whatever came before it. -/
theorem Exhausted.behind {left : ρ → List α} {bound : Nat} {groups : List (List α)}
    {more : List (Round α ρ)} (h : Exhausted left bound groups more) (group : List α)
    (rounds : List (Round α ρ)) : Exhausted left bound (group :: groups) (rounds ++ more) := by
  obtain ⟨stuck, hmem, tries, rest, hresends, hne, hlength, hsub⟩ := h
  exact ⟨stuck, List.mem_cons_of_mem _ hmem, tries, rest, hresends, hne, hlength,
    fun round hround => List.mem_append_right _ (hsub round hround)⟩

/-- What is made of a result is made of it unless there was a fault. -/
theorem orFault_map {γ : Type} (fault? : Option Fault) (result : β) (f : β → γ) :
    (orFault fault? result).map f = orFault fault? (f result) := by
  cases fault? <;> rfl

/-! ### The functions that run -/

/-- The exchange of a round of writes. -/
def Round.ofWrites (table : String) (round : Round WriteRequest (List WriteRequest)) : Exchange :=
  ⟨.batchWrite table round.submitted, round.answer⟩

/-- The exchange of a round of keys. -/
def Round.ofKeys (read : ItemReadCall) (round : Round Item BatchFound) : Exchange :=
  ⟨.batchGet round.submitted read, round.answer⟩

/-- The items that a round found. -/
def Round.items (round : Round Item BatchFound) : List Item :=
  match round.answer with
  | .ok found => found.items
  | .error _ => []

/-- What was found after these items. -/
def BatchFound.behind (items : List Item) (rest : BatchFound) : BatchFound :=
  { rest with items := items ++ rest.items }

section Run

variable (store : Store σ)

/-- A group is submitted, and what is left over of it is submitted next. -/
theorem writeGroup_succ (table : String) (bound : Nat) {pending : List WriteRequest}
    (hne : pending ≠ []) :
    writeGroup store table (bound + 1) pending =
      store.answer (.batchWrite table pending) >>= writeGroup store table bound := by
  cases pending with
  | nil => exact absurd rfl hne
  | cons request requests => rfl

/-- **Sending a group of writes** makes rounds of the group. -/
theorem makes_writeGroup (table : String) (bound : Nat) (pending : List WriteRequest) (state : σ) :
    ∃ rounds rest fault? later,
      Makes (fun _ store => writeGroup store table bound pending) store state
        (rounds.map (Round.ofWrites table)) (orFault fault? rest) later ∧
      Resends id pending rounds rest fault? ∧
      (fault? = none → rest ≠ [] → rounds.length = bound) := by
  induction bound generalizing pending state with
  | zero =>
      refine ⟨[], pending, none, state, ?_, .start pending, fun _ _ => rfl⟩
      cases pending with
      | nil | cons => exact makes_pure _ state
  | succ bound ih =>
      by_cases hne : pending = []
      · subst hne
        exact ⟨[], [], none, state, makes_pure [] state, .start [],
          fun _ hrest => absurd rfl hrest⟩
      · simp only [writeGroup_succ _ _ _ hne]
        rcases hanswer : (store.answer (.batchWrite table pending)).attempt state
          with ⟨answer, middle⟩
        cases answer with
        | error fault =>
            exact ⟨[⟨pending, .error fault⟩], pending, some fault, middle,
              (makes_answer hanswer).bind_error, .failed hne fault, nofun⟩
        | ok unprocessed =>
            obtain ⟨rounds, rest, fault?, later, hmakes, hmore, hbound⟩ := ih unprocessed middle
            refine ⟨⟨pending, .ok unprocessed⟩ :: rounds, rest, fault?, later,
              (makes_answer hanswer).bind hmakes, .again hne unprocessed hmore, ?_⟩
            intro hnone hrest
            rw [List.length_cons, hbound hnone hrest]

/-- What is done when the first group was sent. -/
def writeFurther (store : Store σ) (table : String) (bound : Nat)
    (groups : List (List WriteRequest)) : List WriteRequest → Run σ (List WriteRequest)
  | [] => writeGroups store table bound groups
  | pending => return pending ++ groups.flatten

/-- The groups are sent one after the other. -/
theorem writeGroups_cons (table : String) (bound : Nat) (group : List WriteRequest)
    (groups : List (List WriteRequest)) :
    writeGroups store table bound (group :: groups) =
      writeGroup store table bound group >>= writeFurther store table bound groups := by
  rw [writeGroups]
  refine congrArg _ (funext fun pending => ?_)
  cases pending with
  | nil | cons => rfl

/-- **Sending groups of writes** makes rounds of the groups. -/
theorem makes_writeGroups (table : String) (bound : Nat) (groups : List (List WriteRequest))
    (state : σ) :
    ∃ rounds remaining fault? later,
      Makes (fun _ store => writeGroups store table bound groups) store state
        (rounds.map (Round.ofWrites table)) (orFault fault? remaining.flatten) later ∧
      SendsGroups id groups rounds remaining fault? ∧
      (fault? = none → remaining = [] ∨ Exhausted id bound groups rounds) := by
  induction groups generalizing state with
  | nil => exact ⟨[], [], none, state, makes_pure [] state, .nil, fun _ => .inl rfl⟩
  | cons group groups ih =>
      obtain ⟨rounds, rest, fault?, middle, hmakes, hgroup, hbound⟩ :=
        makes_writeGroup store table bound group state
      simp only [writeGroups_cons]
      cases fault? with
      | some fault =>
          exact ⟨rounds, rest :: groups, some fault, middle, hmakes.bind_error,
            .stopped groups hgroup, nofun⟩
      | none =>
          cases rest with
          | cons request requests =>
              refine ⟨rounds, (request :: requests) :: groups, none, middle, ?_,
                .stopped groups hgroup, fun _ => .inr ?_⟩
              · rw [← List.append_nil (rounds.map _)]
                exact hmakes.bind (makes_pure _ middle)
              · exact ⟨group, List.mem_cons_self, rounds, _, hgroup, List.cons_ne_nil _ _,
                  hbound rfl (List.cons_ne_nil _ _), fun _ => id⟩
          | nil =>
              obtain ⟨more, remaining, fault?, later, hmakes', hmore, hbound'⟩ := ih middle
              refine ⟨rounds ++ more, remaining, fault?, later, ?_, .done hgroup hmore, ?_⟩
              · rw [List.map_append]
                exact hmakes.bind hmakes'
              · intro hnone
                exact (hbound' hnone).imp_right fun h => h.behind group rounds

/-- Keys are asked for, and what is left over of them is asked for next; what was found first
comes first. -/
theorem readGroup_succ (read : ItemReadCall) (bound : Nat) {pending : List Item}
    (hne : pending ≠ []) :
    readGroup store read (bound + 1) pending =
      store.answer (.batchGet pending read) >>= fun found =>
        readGroup store read bound found.unprocessed >>= fun rest =>
          pure (rest.behind found.items) := by
  cases pending with
  | nil => exact absurd rfl hne
  | cons key keys => rfl

/-- **Asking for a group of keys** makes rounds of the group. -/
theorem makes_readGroup (read : ItemReadCall) (bound : Nat) (pending : List Item) (state : σ) :
    ∃ rounds rest fault? later,
      Makes (fun _ store => readGroup store read bound pending) store state
        (rounds.map (Round.ofKeys read)) (orFault fault? ⟨rounds.flatMap Round.items, rest⟩)
        later ∧
      Resends BatchFound.unprocessed pending rounds rest fault? ∧
      (fault? = none → rest ≠ [] → rounds.length = bound) := by
  induction bound generalizing pending state with
  | zero =>
      refine ⟨[], pending, none, state, ?_, .start pending, fun _ _ => rfl⟩
      cases pending with
      | nil | cons => exact makes_pure _ state
  | succ bound ih =>
      by_cases hne : pending = []
      · subst hne
        exact ⟨[], [], none, state, makes_pure (BatchFound.mk [] []) state, .start [],
          fun _ hrest => absurd rfl hrest⟩
      · simp only [readGroup_succ _ _ _ hne]
        rcases hanswer : (store.answer (.batchGet pending read)).attempt state with ⟨answer, middle⟩
        cases answer with
        | error fault =>
            exact ⟨[⟨pending, .error fault⟩], pending, some fault, middle,
              (makes_answer hanswer).bind_error, .failed hne fault, nofun⟩
        | ok found =>
            obtain ⟨rounds, rest, fault?, later, hmakes, hmore, hbound⟩ :=
              ih found.unprocessed middle
            refine ⟨⟨pending, .ok found⟩ :: rounds, rest, fault?, later, ?_,
              .again hne found hmore, ?_⟩
            · have hrest := hmakes.map (BatchFound.behind found.items)
              rw [orFault_map] at hrest
              exact (makes_answer hanswer).bind hrest
            · intro hnone hrest
              rw [List.length_cons, hbound hnone hrest]

/-- What is done when the first group was asked for. -/
def readFurther (store : Store σ) (read : ItemReadCall) (bound : Nat) (groups : List (List Item))
    (found : BatchFound) : Run σ BatchFound :=
  match found.unprocessed with
  | [] => readGroups store read bound groups >>= fun rest => pure (rest.behind found.items)
  | pending => return { found with unprocessed := pending ++ groups.flatten }

/-- The groups of keys are asked for one after the other. -/
theorem readGroups_cons (read : ItemReadCall) (bound : Nat) (group : List Item)
    (groups : List (List Item)) :
    readGroups store read bound (group :: groups) =
      readGroup store read bound group >>= readFurther store read bound groups := rfl

/-- **Asking for groups of keys** makes rounds of the groups. -/
theorem makes_readGroups (read : ItemReadCall) (bound : Nat) (groups : List (List Item))
    (state : σ) :
    ∃ rounds remaining fault? later,
      Makes (fun _ store => readGroups store read bound groups) store state
        (rounds.map (Round.ofKeys read))
        (orFault fault? ⟨rounds.flatMap Round.items, remaining.flatten⟩) later ∧
      SendsGroups BatchFound.unprocessed groups rounds remaining fault? ∧
      (fault? = none → remaining = [] ∨ Exhausted BatchFound.unprocessed bound groups rounds) := by
  induction groups generalizing state with
  | nil =>
      exact ⟨[], [], none, state, makes_pure (BatchFound.mk [] []) state, .nil, fun _ => .inl rfl⟩
  | cons group groups ih =>
      obtain ⟨rounds, rest, fault?, middle, hmakes, hgroup, hbound⟩ :=
        makes_readGroup store read bound group state
      simp only [readGroups_cons]
      cases fault? with
      | some fault =>
          exact ⟨rounds, rest :: groups, some fault, middle, hmakes.bind_error,
            .stopped groups hgroup, nofun⟩
      | none =>
          cases rest with
          | cons key keys =>
              refine ⟨rounds, (key :: keys) :: groups, none, middle, ?_,
                .stopped groups hgroup, fun _ => .inr ?_⟩
              · rw [← List.append_nil (rounds.map _)]
                exact hmakes.bind (makes_pure _ middle)
              · exact ⟨group, List.mem_cons_self, rounds, _, hgroup, List.cons_ne_nil _ _,
                  hbound rfl (List.cons_ne_nil _ _), fun _ => id⟩
          | nil =>
              obtain ⟨more, remaining, fault?, later, hmakes', hmore, hbound'⟩ := ih middle
              refine ⟨rounds ++ more, remaining, fault?, later, ?_, .done hgroup hmore, ?_⟩
              · have hrest := hmakes'.map (BatchFound.behind (rounds.flatMap Round.items))
                rw [orFault_map] at hrest
                rw [List.map_append, List.flatMap_append]
                exact hmakes.bind hrest
              · intro hnone
                exact (hbound' hnone).imp_right fun h => h.behind group rounds

end Run

/-! ### Cutting at a round -/

/-- A list in two parts, cut at an element: that stands in the first part or behind it. -/
theorem cut_append {before after rounds more : List β} {round : β}
    (h : before ++ round :: after = rounds ++ more) :
    (∃ between, rounds = before ++ round :: between) ∨
      ∃ between, before = rounds ++ between ∧ more = between ++ round :: after := by
  rcases List.append_eq_append_iff.mp h with ⟨between, hrounds, hmore⟩ | ⟨between, hbefore, hmore⟩
  · cases between with
    | nil =>
        rw [List.append_nil] at hrounds
        exact .inr ⟨[], by rw [hrounds, List.append_nil], hmore.symm⟩
    | cons first between =>
        cases hmore
        exact .inl ⟨between, hrounds⟩
  · exact .inr ⟨between, hbefore, hmore⟩

section Cut

variable {left : ρ → List α} {fault? : Option Fault} {before after : List (Round α ρ)}
  {round : Round α ρ}

/-- What a round submits is what the rounds before it left over, and there is some. -/
theorem Resends.split {pending rest : List α}
    (h : Resends left pending (before ++ round :: after) rest fault?) :
    Resends left pending before round.submitted none ∧ round.submitted ≠ [] := by
  induction before generalizing pending with
  | nil =>
      cases h with
      | failed hne fault => exact ⟨.start _, hne⟩
      | again hne answer hmore => exact ⟨.start _, hne⟩
  | cons first before ih =>
      generalize hrounds : first :: before ++ round :: after = rounds at h
      cases h with
      | start => cases hrounds
      | failed hne fault =>
          cases before with
          | nil | cons => cases hrounds
      | again hne answer hmore =>
          cases hrounds
          obtain ⟨hfirst, hround⟩ := ih hmore
          exact ⟨.again hne answer hfirst, hround⟩

/-- At any round, what was submitted and the groups behind it remain. -/
theorem SendsGroups.split {groups remaining : List (List α)}
    (h : SendsGroups left groups (before ++ round :: after) remaining fault?) :
    ∃ later, SendsGroups left groups before (round.submitted :: later) none ∧
      round.submitted ≠ [] := by
  generalize hall : before ++ round :: after = all at h
  induction h generalizing before with
  | nil => exact absurd hall (List.append_ne_nil_of_right_ne_nil _ (List.cons_ne_nil _ _))
  | @done group groups remaining rounds more fault? hgroup hmore ih =>
      rcases cut_append hall with ⟨between, rfl⟩ | ⟨between, rfl, rfl⟩
      · obtain ⟨hfirst, hne⟩ := hgroup.split
        exact ⟨groups, .stopped groups hfirst, hne⟩
      · obtain ⟨later, hbetween, hne⟩ := ih rfl
        exact ⟨later, .done hgroup hbetween, hne⟩
  | stopped groups hgroup =>
      subst hall
      obtain ⟨hfirst, hne⟩ := hgroup.split
      exact ⟨groups, .stopped groups hfirst, hne⟩

/-- The first round submits the group as a whole. -/
theorem Resends.first {pending rest : List α}
    (h : Resends left pending (round :: after) rest fault?) : round.submitted = pending := by
  cases h with
  | failed _ _ | again _ _ _ => rfl

/-- After a round that leaves something over, exactly that is submitted next. -/
theorem Resends.next {pending rest : List α} {following : Round α ρ}
    (h : Resends left pending (before ++ round :: following :: after) rest fault?) :
    ∃ answer, round.answer = .ok answer ∧ left answer ≠ [] ∧ following.submitted = left answer := by
  induction before generalizing pending with
  | nil =>
      cases h with
      | again hne answer hmore =>
          cases hmore with
          | failed hne' fault => exact ⟨answer, rfl, hne', rfl⟩
          | again hne' answer' hmore' => exact ⟨answer, rfl, hne', rfl⟩
  | cons first before ih =>
      generalize hrounds : first :: before ++ round :: following :: after = rounds at h
      cases h with
      | start => cases hrounds
      | failed hne fault =>
          cases before with
          | nil | cons => cases hrounds
      | again hne answer hmore =>
          cases hrounds
          exact ih hmore

/-- A group that is done ends with a round that leaves nothing over, the first of its kind. -/
theorem Resends.ends {pending : List α} {rounds : List (Round α ρ)}
    (h : Resends left pending rounds [] none) (hne : pending ≠ []) :
    ∃ tries last answer, rounds = tries ++ [last] ∧ last.answer = .ok answer ∧ left answer = [] ∧
      ∀ round ∈ tries, ∃ answer, round.answer = .ok answer ∧ left answer ≠ [] := by
  generalize hrest : ([] : List α) = rest at h
  generalize hnone : (none : Option Fault) = fault? at h
  induction h with
  | start pending => exact absurd hrest.symm hne
  | failed _ fault => cases hnone
  | @again pending rest rounds fault? _ answer hmore ih =>
      subst hrest hnone
      by_cases hleft : left answer = []
      · rw [hleft] at hmore
        cases hmore with
        | start =>
            exact ⟨[], _, answer, rfl, rfl, hleft, fun _ hmem => absurd hmem List.not_mem_nil⟩
        | again hne' _ _ => exact absurd rfl hne'
      · obtain ⟨tries, last, answer', rfl, hlast, hnothing, htries⟩ := ih hleft rfl rfl
        refine ⟨_ :: tries, last, answer', rfl, hlast, hnothing, fun round hmem => ?_⟩
        rcases List.mem_cons.mp hmem with rfl | hmem
        · exact ⟨answer, rfl, hleft⟩
        · exact htries round hmem

/-- The last round of a group that is done leaves nothing over. -/
theorem Resends.last {pending : List α} (h : Resends left pending (before ++ [round]) [] none) :
    ∃ answer, round.answer = .ok answer ∧ left answer = [] := by
  have hne : pending ≠ [] := by
    rintro rfl
    generalize hrounds : before ++ [round] = rounds at h
    cases h with
    | start => simp at hrounds
    | again hne _ _ => exact hne rfl
  obtain ⟨tries, last, answer, hrounds, hanswer, hnothing, -⟩ := h.ends hne
  obtain ⟨rfl, hround⟩ := List.append_inj' hrounds rfl
  obtain rfl := List.singleton_inj.mp hround
  exact ⟨answer, hanswer, hnothing⟩

/-- The first round of groups is for the first of them that has something to do. -/
theorem SendsGroups.first {groups remaining : List (List α)}
    (h : SendsGroups left groups (round :: after) remaining fault?) :
    ∃ done behind, groups = done ++ round.submitted :: behind ∧
      SendsGroups left done [] [] none := by
  generalize hall : round :: after = all at h
  induction h with
  | nil => cases hall
  | @done group groups remaining rounds more fault? hgroup hmore ih =>
      cases rounds with
      | nil =>
          obtain ⟨done, behind, rfl, hdone⟩ := ih hall
          exact ⟨group :: done, behind, rfl, .done hgroup hdone⟩
      | cons first rounds =>
          cases hall
          exact ⟨[], groups, by rw [hgroup.first]; rfl, .nil⟩
  | @stopped group rest groups rounds fault? hgroup =>
      subst hall
      exact ⟨[], groups, by rw [hgroup.first]; rfl, .nil⟩

/-- After a round that leaves something over, exactly that is submitted next; after one that
leaves nothing over, the next group is. -/
theorem SendsGroups.next {groups remaining : List (List α)} {following : Round α ρ}
    (h : SendsGroups left groups (before ++ round :: following :: after) remaining fault?) :
    ∃ answer, round.answer = .ok answer ∧
      (left answer ≠ [] ∧ following.submitted = left answer ∨
        left answer = [] ∧ ∃ done behind, groups = done ++ following.submitted :: behind ∧
          SendsGroups left done (before ++ [round]) [] none) := by
  generalize hall : before ++ round :: following :: after = all at h
  induction h generalizing before with
  | nil => exact absurd hall (List.append_ne_nil_of_right_ne_nil _ (List.cons_ne_nil _ _))
  | @done group groups remaining rounds more fault? hgroup hmore ih =>
      rcases cut_append hall with ⟨between, rfl⟩ | ⟨between, rfl, rfl⟩
      · rw [List.append_assoc, List.cons_append] at hall
        have hbehind := List.cons_inj_right round |>.mp (List.append_cancel_left hall)
        cases between with
        | nil =>
            rw [List.nil_append] at hbehind
            subst hbehind
            obtain ⟨done, behind, rfl, hdone⟩ := hmore.first
            obtain ⟨answer, hanswer, hnothing⟩ := hgroup.last
            refine ⟨answer, hanswer, .inr ⟨hnothing, group :: done, behind, rfl, ?_⟩⟩
            have hboth := SendsGroups.done hgroup hdone
            rwa [List.append_nil] at hboth
        | cons other between =>
            cases hbehind
            obtain ⟨answer, hanswer, hleft⟩ := hgroup.next
            exact ⟨answer, hanswer, .inl hleft⟩
      · obtain ⟨answer, hanswer, hleft | ⟨hnothing, done, behind, rfl, hdone⟩⟩ := ih rfl
        · exact ⟨answer, hanswer, .inl hleft⟩
        · refine ⟨answer, hanswer, .inr ⟨hnothing, group :: done, behind, rfl, ?_⟩⟩
          rw [List.append_assoc]
          exact .done hgroup hdone
  | stopped groups hgroup =>
      subst hall
      obtain ⟨answer, hanswer, hleft⟩ := hgroup.next
      exact ⟨answer, hanswer, .inl hleft⟩

/-- When everything is done, the rounds of the last group are the last ones. -/
theorem SendsGroups.last_group {front : List (List α)} {group : List α}
    {rounds : List (Round α ρ)} (h : SendsGroups left (front ++ [group]) rounds [] none) :
    ∃ done tries, rounds = done ++ tries ∧ SendsGroups left front done [] none ∧
      Resends left group tries [] none := by
  induction front generalizing rounds with
  | nil =>
      cases h with
      | done hgroup hmore =>
          cases hmore
          exact ⟨[], _, by simp, .nil, hgroup⟩
  | cons first front ih =>
      cases h with
      | done hgroup hmore =>
          obtain ⟨done, tries, rfl, hfront, hlast⟩ := ih hmore
          exact ⟨_ ++ done, tries, (List.append_assoc _ _ _).symm, .done hgroup hfront, hlast⟩

/-- No round submits nothing. -/
theorem SendsGroups.submitted_ne_nil {groups remaining : List (List α)}
    {rounds : List (Round α ρ)} (h : SendsGroups left groups rounds remaining fault?) :
    ∀ round ∈ rounds, round.submitted ≠ [] := by
  intro round hmem
  obtain ⟨before, after, rfl⟩ := List.append_of_mem hmem
  exact h.split.choose_spec.2

end Cut

/-! ### Faults -/

/-- The fault of a round, if it failed. -/
def Round.fault? (round : Round α ρ) : Option Fault := faultOf round.answer

/-- Only the last round of a group can fail. -/
theorem Resends.endsIn {left : ρ → List α} {pending rest : List α} {rounds : List (Round α ρ)}
    {fault? : Option Fault} (h : Resends left pending rounds rest fault?) :
    EndsIn fault? (rounds.map Round.fault?) := by
  induction h with
  | start pending => exact endsIn_nil
  | failed hne fault => exact endsIn_singleton fault
  | again hne answer hmore ih => exact ih.cons

/-- Only the last round can fail. -/
theorem SendsGroups.endsIn {left : ρ → List α} {groups remaining : List (List α)}
    {rounds : List (Round α ρ)} {fault? : Option Fault}
    (h : SendsGroups left groups rounds remaining fault?) :
    EndsIn fault? (rounds.map Round.fault?) := by
  induction h with
  | nil => exact endsIn_nil
  | done hgroup hmore ih =>
      rw [List.map_append]
      exact hgroup.endsIn.append ih
  | stopped groups hgroup => exact hgroup.endsIn

/-- Only the last call of a batch of writes can fail. -/
theorem SendsGroups.endsIn_ofWrites {groups remaining : List (List WriteRequest)}
    {rounds : List (Round WriteRequest (List WriteRequest))} {fault? : Option Fault}
    (h : SendsGroups id groups rounds remaining fault?) (table : String) :
    EndsIn fault? ((rounds.map (Round.ofWrites table)).map Exchange.fault?) := by
  rw [List.map_map]
  exact h.endsIn

/-- Only the last call of a batch of keys can fail. -/
theorem SendsGroups.endsIn_ofKeys {groups remaining : List (List Item)}
    {rounds : List (Round Item BatchFound)} {fault? : Option Fault}
    (h : SendsGroups BatchFound.unprocessed groups rounds remaining fault?)
    (read : ItemReadCall) :
    EndsIn fault? ((rounds.map (Round.ofKeys read)).map Exchange.fault?) := by
  rw [List.map_map]
  exact h.endsIn

/-! ### Rounds that do something -/

/-- What a round does of what was submitted: if it succeeds, something, and the others are
left over; if it fails, any part. -/
def Does (left : ρ → List α) (work : List α) (round : Round α ρ) : Prop :=
  match round.answer with
  | .ok answer => work ≠ [] ∧ (work ++ left answer).Perm round.submitted
  | .error _ => work.Subperm round.submitted

/-- How far a batch is: groups that are done, each in some order, then a part of the next
one; the rest of that group and the groups behind it remain. -/
inductive Underway : List (List α) → List α → List (List α) → Prop
  | nil : Underway [] [] []
  | done {group part applied : List α} {groups remaining : List (List α)}
      (hpart : part.Perm group) (hmore : Underway groups applied remaining) :
      Underway (group :: groups) (part ++ applied) remaining
  | partway {group part rest : List α} (groups : List (List α))
      (hpart : (part ++ rest).Perm group) : Underway (group :: groups) part (rest :: groups)

section Work

variable {left : ρ → List α} {fault? : Option Fault} {rounds : List (Round α ρ)}
  {works : List (List α)}

/-- What the rounds of a group did is the group, up to what is left over of it. -/
theorem Resends.does {pending rest : List α} (h : Resends left pending rounds rest fault?)
    (hworks : List.Forall₂ (Does left) works rounds) :
    ∃ missing, (works.flatten ++ missing).Perm pending ∧ (fault? = none → missing = rest) := by
  induction h generalizing works with
  | start pending =>
      cases hworks
      exact ⟨pending, .refl _, fun _ => rfl⟩
  | failed hne fault =>
      obtain _ | ⟨hwork, _ | _⟩ := hworks
      obtain ⟨part, hperm, hsub⟩ := hwork
      obtain ⟨missing, hmissing⟩ := hsub.exists_perm_append
      refine ⟨missing, ?_, nofun⟩
      rw [List.flatten_singleton]
      exact ((hperm.symm.append_right missing).trans hmissing.symm)
  | again hne answer hmore ih =>
      obtain _ | ⟨⟨_, hperm⟩, hmoreWorks⟩ := hworks
      obtain ⟨missing, hmissing, hrest⟩ := ih hmoreWorks
      refine ⟨missing, ?_, hrest⟩
      rw [List.flatten_cons, List.append_assoc]
      exact (hmissing.append_left _).trans hperm

/-- **How far a batch is** after any rounds. -/
theorem SendsGroups.underway {groups remaining : List (List α)}
    (h : SendsGroups left groups rounds remaining fault?)
    (hworks : List.Forall₂ (Does left) works rounds) :
    ∃ missing, Underway groups works.flatten missing ∧
      (fault? = none → missing = remaining) ∧ (fault? ≠ none → missing ≠ []) := by
  induction h generalizing works with
  | nil =>
      cases hworks
      exact ⟨[], .nil, fun _ => rfl, fun h => absurd rfl h⟩
  | @done group groups remaining rounds more fault? hgroup hmore ih =>
      obtain ⟨rest, hpart, hrest⟩ := hgroup.does (List.forall₂_take_append _ _ _ hworks)
      obtain ⟨missing, hunderway, hmissing⟩ := ih (List.forall₂_drop_append _ _ _ hworks)
      refine ⟨missing, ?_, hmissing⟩
      rw [hrest rfl, List.append_nil] at hpart
      rw [← List.take_append_drop rounds.length works, List.flatten_append]
      exact .done hpart hunderway
  | stopped groups hgroup =>
      obtain ⟨rest, hpart, hrest⟩ := hgroup.does hworks
      exact ⟨rest :: groups, .partway groups hpart, fun h => by rw [hrest h],
        fun _ => List.cons_ne_nil _ _⟩

/-- Every round of a batch did something. -/
theorem exists_does (hworks : List.Forall₂ (Does left) works rounds) :
    ∀ round ∈ rounds, ∃ work, Does left work round := by
  induction hworks with
  | nil => exact fun _ hmem => absurd hmem List.not_mem_nil
  | cons hwork hworks ih =>
      intro round hmem
      rcases List.mem_cons.mp hmem with rfl | hmem
      · exact ⟨_, hwork⟩
      · exact ih round hmem

/-- What remains of a group is a part of it. -/
theorem Underway.length_le {groups behind : List (List α)} {applied rest : List α} {bound : Nat}
    (h : Underway groups applied (rest :: behind))
    (hbound : ∀ group ∈ groups, group.length ≤ bound) : rest.length ≤ bound := by
  generalize hremaining : rest :: behind = remaining at h
  induction h with
  | nil => cases hremaining
  | done hpart hmore ih =>
      exact ih (fun group hmem => hbound group (List.mem_cons_of_mem _ hmem)) hremaining
  | @partway group part rest groups hpart =>
      cases hremaining
      have hgroup := hbound group List.mem_cons_self
      have hlength := hpart.length_eq
      rw [List.length_append] at hlength
      omega

/-- Nothing is submitted in vain, and never more than a group holds. -/
theorem SendsGroups.length_submitted {groups remaining : List (List α)} {bound : Nat}
    (h : SendsGroups left groups rounds remaining fault?)
    (hworks : List.Forall₂ (Does left) works rounds)
    (hbound : ∀ group ∈ groups, group.length ≤ bound) :
    ∀ round ∈ rounds, 1 ≤ round.submitted.length ∧ round.submitted.length ≤ bound := by
  intro round hmem
  obtain ⟨before, after, rfl⟩ := List.append_of_mem hmem
  obtain ⟨behind, hbefore, hne⟩ := h.split
  obtain ⟨missing, hunderway, hmissing, -⟩ :=
    hbefore.underway (List.forall₂_take_append _ _ _ hworks)
  rw [hmissing rfl] at hunderway
  exact ⟨List.length_pos_iff.mpr hne, hunderway.length_le hbound⟩

/-- What is applied when nothing remains. -/
theorem Underway.perm {groups : List (List α)} {applied : List α}
    (h : Underway groups applied []) : applied.Perm groups.flatten := by
  generalize hnone : ([] : List (List α)) = remaining at h
  induction h with
  | nil => exact .refl _
  | done hpart hmore ih => exact hpart.append (ih hnone)
  | partway groups hpart => cases hnone

/-! ### How long it takes -/

/-- A group takes no more rounds than it loses things; a round that fails is one more. -/
theorem Resends.length_add_le {pending rest : List α}
    (h : Resends left pending rounds rest fault?)
    (hworks : ∀ round ∈ rounds, ∃ work, Does left work round) :
    rounds.length + rest.length ≤ pending.length + fault?.toList.length ∧
      (fault? ≠ none → rest ≠ []) := by
  induction h with
  | start pending => simp
  | failed hne fault => simp [hne, Nat.add_comm]
  | @again pending rest rounds fault? hne answer hmore ih =>
      obtain ⟨hlength, hrest⟩ := ih fun round hround => hworks round (List.mem_cons_of_mem _ hround)
      obtain ⟨work, hwork, hperm⟩ := hworks _ List.mem_cons_self
      have hall : (work ++ left answer).length = pending.length := hperm.length_eq
      rw [List.length_append] at hall
      have hpos := List.length_pos_iff.mpr hwork
      refine ⟨?_, hrest⟩
      rw [List.length_cons]
      omega

/-- A group takes at most as many rounds as it has members, if each round does something. -/
theorem Resends.length_le {pending rest : List α} (h : Resends left pending rounds rest fault?)
    (hworks : ∀ round ∈ rounds, ∃ work, Does left work round) :
    rounds.length ≤ pending.length := by
  obtain ⟨hlength, hrest⟩ := h.length_add_le hworks
  cases fault? with
  | none =>
      rw [Option.toList_none, List.length_nil] at hlength
      omega
  | some fault =>
      have hpos := List.length_pos_iff.mpr (hrest nofun)
      rw [Option.toList_some, List.length_singleton] at hlength
      omega

/-- **No more rounds than things to do.** -/
theorem SendsGroups.length_le {groups remaining : List (List α)}
    (h : SendsGroups left groups rounds remaining fault?)
    (hworks : ∀ round ∈ rounds, ∃ work, Does left work round) :
    rounds.length ≤ groups.flatten.length := by
  induction h with
  | nil => exact Nat.le_refl 0
  | done hgroup hmore ih =>
      have hfirst := hgroup.length_le fun round hround =>
        hworks round (List.mem_append_left _ hround)
      have hrest := ih fun round hround => hworks round (List.mem_append_right _ hround)
      rw [List.length_append, List.flatten_cons, List.length_append]
      omega
  | stopped groups hgroup =>
      have hfirst := hgroup.length_le hworks
      rw [List.flatten_cons, List.length_append]
      omega

/-- **No group is given up** that may take as many rounds as it has things to do. -/
theorem not_exhausted {groups : List (List α)} {bound : Nat}
    (hbound : ∀ group ∈ groups, group.length ≤ bound)
    (hworks : ∀ round ∈ rounds, ∃ work, Does left work round) :
    ¬ Exhausted left bound groups rounds := by
  rintro ⟨group, hmem, tries, rest, hresends, hne, hlength, hsub⟩
  obtain ⟨hle, -⟩ := hresends.length_add_le fun round hround => hworks round (hsub round hround)
  have hpos := List.length_pos_iff.mpr hne
  have hgroup := hbound group hmem
  rw [Option.toList_none, List.length_nil] at hle
  omega

end Work

end KeywordTable
