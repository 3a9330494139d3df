import KeywordTable.Proofs.Batches
import KeywordTable.Proofs.Codec

/-!
# Batches in words

A `Letter` is a message with what became of it.  A `Wording` says how the rounds of a batch
are put into words: as which request a part of it is submitted, what is said to this request,
and what that leaves over.  A letter `Carries` a round if it makes the request of the round and
no other, and is answered as the round is; it `Postpones` work if what is left over is a part
of what it submits.  `Resubmits` says that nothing is lost on the way of a batch through its
letters.

`Renders` says of a wording that the functions which run keep to it: a round is posted as one
letter, and what is left over of it is worded as it was before.  From this, by induction on the
rounds of a group and on the groups, every letter carries a round of the same batch in words
(`Renders.sends`), and so nothing is lost (`Renders.resubmits`).
-/

namespace KeywordTable

variable {σ α β ρ τ : Type}

/-! ### Letters -/

/-- A message with what became of it. -/
structure Letter where
  message : Message
  delivery : Delivery

/-- The transport that also keeps every letter, oldest first. -/
def Transport.logging (transport : Transport σ) : Transport (σ × List Letter) where
  post message := fun (state, letters) =>
    let (delivery, state) := transport.post message state
    (delivery, state, letters ++ [⟨message, delivery⟩])

section Letters

variable (codec : Codec) (transport : Transport σ) {call : Call}

/-- A call whose request can be encoded is posted as one letter. -/
theorem Codec.attempt_posted {message : Message} (hencode : codec.encode call.request = .ok message)
    (state : σ) (letters : List Letter) :
    ((codec.store transport.logging).answer call).attempt (state, letters) =
      (((codec.decode call.request (transport.post message state).1).mapError
        Trouble.fault).map call.reply, (transport.post message state).2,
        letters ++ [⟨message, (transport.post message state).1⟩]) := by
  simp only [Codec.store, Codec.ask, Run.attempt, hencode]
  rfl

/-- A call whose request cannot be encoded is not posted. -/
theorem Codec.attempt_refused {trouble : Trouble}
    (hencode : codec.encode call.request = .error trouble) (state : σ × List Letter) :
    ((codec.store transport.logging).answer call).attempt state =
      (.error trouble.fault, state) := by
  simp only [Codec.store, Codec.ask, Run.attempt, hencode]
  rfl

variable {codec transport}

/-- What was kept stays. -/
theorem Codec.letters_isPrefix {state later : σ × List Letter} {exchanges : List Exchange}
    (h : (codec.store transport.logging).Serves state exchanges later) : state.2 <+: later.2 := by
  induction h with
  | nil state => exact List.prefix_refl _
  | @cons state middle later call answer rest hanswer hrest ih =>
      refine List.IsPrefix.trans ?_ ih
      cases hencode : codec.encode call.request with
      | ok message =>
          rw [codec.attempt_posted transport hencode] at hanswer
          obtain ⟨-, rfl⟩ := Prod.mk.inj hanswer
          exact List.prefix_append _ _
      | error trouble =>
          rw [codec.attempt_refused transport hencode] at hanswer
          obtain ⟨-, rfl⟩ := Prod.mk.inj hanswer
          exact List.prefix_refl _

/-- A call whose request can be encoded is one letter: its message makes this request and no
other, and its answer is what was said to it. -/
theorem Codec.Faithful.serves_singleton {protocol : Protocol} (hfaithful : codec.Faithful protocol)
    {answer : Except Fault call.Reply} (hknown : call.request.isKnown = true) {state : σ}
    {letters : List Letter} {later : σ × List Letter}
    (h : (codec.store transport.logging).Serves (state, letters) [⟨call, answer⟩] later) :
    ∃ letter, later.2 = letters ++ [letter] ∧
      (∀ other, protocol.Makes letter.message other ↔ other = call.request) ∧
      answer = ((protocol.answer call.request letter.delivery).mapError
        Trouble.fault).map call.reply := by
  obtain ⟨message, hencode⟩ := hfaithful.encodes call.request hknown
  obtain _ | ⟨hanswer, _ | _⟩ := h
  rw [codec.attempt_posted transport hencode, hfaithful.decodes] at hanswer
  obtain ⟨hreply, rfl⟩ := Prod.mk.inj hanswer
  exact ⟨_, rfl, hfaithful.makes _ _ hencode, hreply.symm⟩

end Letters

/-! ### Wordings -/

/-- How the rounds of a batch are put into words: the request that submits some of it, what
is said to that request, and what this leaves over. -/
structure Wording (α ρ : Type) where
  protocol : Protocol
  request : List α → ServiceRequest
  answer : List α → Delivery → Except Fault ρ
  left : ρ → List α

namespace Wording

variable (wording : Wording α ρ)

/-- The letter makes the request that submits what the round does, and no other, and what
became of it is the answer of the round. -/
def Carries (letter : Letter) (round : Round α ρ) : Prop :=
  (∀ request, wording.protocol.Makes letter.message request ↔
    request = wording.request round.submitted) ∧
    wording.answer round.submitted letter.delivery = round.answer

/-- What is left over is a part of what the letter submitted, in the same order. -/
def Postpones (letter : Letter) : Prop :=
  ∀ submitted answer, wording.protocol.Makes letter.message (wording.request submitted) →
    wording.answer submitted letter.delivery = .ok answer → (wording.left answer).Sublist submitted

/-- **Nothing is lost** on the way of a batch through these letters. -/
structure Resubmits (bound : Nat) (groups : List (List α)) (letters : List Letter)
    (rounds : List (Round α ρ)) (remaining : List (List α)) (fault? : Option Fault) : Prop where
  /-- Each letter carries one round. -/
  letters : List.Forall₂ wording.Carries letters rounds
  /-- The groups are sent one after the other, and each until nothing is left over. -/
  sends : SendsGroups wording.left groups rounds remaining fault?
  /-- Nothing is submitted but parts of the groups, in the same order. -/
  part : ∀ round ∈ rounds, ∃ group ∈ groups, round.submitted.Sublist group
  /-- After a round that leaves something over, exactly that is submitted next; after one
  that leaves nothing over, the next group is. -/
  next : ∀ before round following after, rounds = before ++ round :: following :: after →
    ∃ answer, round.answer = .ok answer ∧
      (wording.left answer ≠ [] ∧ following.submitted = wording.left answer ∨
        wording.left answer = [] ∧ ∃ done behind, groups = done ++ following.submitted :: behind ∧
          SendsGroups wording.left done (before ++ [round]) [] none)
  /-- When all is done, the last round is the first one for the last group that leaves
  nothing over. -/
  ends : fault? = none → remaining = [] → ∀ front group, groups = front ++ [group] →
    ∃ done tries last answer, rounds = done ++ (tries ++ [last]) ∧
      SendsGroups wording.left front done [] none ∧
      (∀ round ∈ tries, ∃ answer, round.answer = .ok answer ∧ wording.left answer ≠ []) ∧
      last.answer = .ok answer ∧ wording.left answer = []
  /-- All is done, unless a round failed or a group took all the rounds that it was
  allowed. -/
  done : fault? = none → remaining = [] ∨ Exhausted wording.left bound groups rounds

/-- What was sent in rounds is not lost. -/
theorem Resubmits.of_sends {wording : Wording α ρ} {bound : Nat} {groups : List (List α)}
    {letters : List Letter} {rounds : List (Round α ρ)} {remaining : List (List α)}
    {fault? : Option Fault} (hletters : List.Forall₂ wording.Carries letters rounds)
    (hsends : SendsGroups wording.left groups rounds remaining fault?)
    (hpart : ∀ round ∈ rounds, ∃ group ∈ groups, round.submitted.Sublist group)
    (hne : ∀ group ∈ groups, group ≠ [])
    (hdone : fault? = none → remaining = [] ∨ Exhausted wording.left bound groups rounds) :
    wording.Resubmits bound groups letters rounds remaining fault? where
  letters := hletters
  sends := hsends
  part := hpart
  next before round following after hrounds := by
    subst hrounds
    exact hsends.next
  ends hnone hall front group hgroups := by
    subst hnone hall hgroups
    obtain ⟨done, tries, rfl, hfront, hlast⟩ := hsends.last_group
    have hgroup := hne group (List.mem_append_right _ (List.mem_singleton_self _))
    obtain ⟨tries, last, answer, rfl, hanswer, hnothing, htries⟩ := hlast.ends hgroup
    exact ⟨done, tries, last, answer, rfl, hfront, htries, hanswer, hnothing⟩
  done := hdone

end Wording

/-! ### The rounds that are put into words -/

section Rendering

variable (wording : Wording α ρ) (word : β → α) (reply : ρ → τ) (left : τ → List β)

/-- One round is the other in words. -/
structure Rendered (words : Round α ρ) (round : Round β τ) : Prop where
  submitted : words.submitted = round.submitted.map word
  answer : round.answer = words.answer.map reply
  left : ∀ answer, words.answer = .ok answer → wording.left answer = (left (reply answer)).map word

/-- The rounds of a batch are put into these words: a round is posted as one letter, if it
can be sent, and what is left over of it is worded as it was. -/
structure Renders (codec : Codec) (transport : Transport σ) (sendable : List β → Prop)
    (exchange : Round β τ → Exchange) : Prop where
  posts {round : Round β τ} {state : σ} {letters : List Letter} {later : σ × List Letter}
    (hsendable : sendable round.submitted)
    (hserves : (codec.store transport.logging).Serves (state, letters) [exchange round] later) :
    ∃ letter, later.2 = letters ++ [letter] ∧
      (∀ request, wording.protocol.Makes letter.message request ↔
        request = wording.request (round.submitted.map word)) ∧
      round.answer = (wording.answer (round.submitted.map word) letter.delivery).map reply
  shrinks {part whole : List β} (hpart : part.Sublist whole) (hsendable : sendable whole) :
    sendable part
  left {answer : ρ} {submitted : List β}
    (hpart : (wording.left answer).Sublist (submitted.map word)) :
    (left (reply answer)).Sublist submitted ∧ wording.left answer = (left (reply answer)).map word

variable {wording word reply left}

/-- A round that failed submitted in words what it submitted, and failed for the same reason. -/
theorem Rendered.failed {words : Round α ρ} {pending : List β} {fault : Fault}
    (h : Rendered wording word reply left words ⟨pending, .error fault⟩) :
    words = ⟨pending.map word, .error fault⟩ := by
  obtain ⟨submitted, answer⟩ := words
  obtain rfl : submitted = _ := h.submitted
  have hanswer := h.answer
  cases answer with
  | ok answer => cases hanswer
  | error fault' =>
      cases hanswer
      rfl

/-- A round that was answered was so in words, and what it leaves over is worded. -/
theorem Rendered.answers {words : Round α ρ} {pending : List β} {result : τ}
    (h : Rendered wording word reply left words ⟨pending, .ok result⟩) :
    ∃ answer, words = ⟨pending.map word, .ok answer⟩ ∧
      wording.left answer = (left result).map word := by
  obtain ⟨submitted, answer⟩ := words
  obtain rfl : submitted = _ := h.submitted
  have hanswer := h.answer
  cases answer with
  | error fault => cases hanswer
  | ok answer =>
      cases hanswer
      exact ⟨answer, rfl, h.left answer rfl⟩

/-- The rounds of a group, in words. -/
theorem Resends.rendered {pending rest : List β} {rounds : List (Round β τ)}
    {fault? : Option Fault} {words : List (Round α ρ)}
    (h : Resends left pending rounds rest fault?)
    (hwords : List.Forall₂ (Rendered wording word reply left) words rounds) :
    Resends wording.left (pending.map word) words (rest.map word) fault? := by
  induction h generalizing words with
  | start pending =>
      cases hwords
      exact .start _
  | failed hne fault =>
      obtain _ | ⟨hround, _ | _⟩ := hwords
      rw [hround.failed]
      exact .failed (by simpa using hne) fault
  | again hne result hmore ih =>
      obtain _ | ⟨hround, hrest⟩ := hwords
      obtain ⟨answer, rfl, hleft⟩ := hround.answers
      have hmore' := ih hrest
      rw [← hleft] at hmore'
      exact .again (by simpa using hne) answer hmore'

/-- The rounds of a batch, in words. -/
theorem SendsGroups.rendered {groups remaining : List (List β)} {rounds : List (Round β τ)}
    {fault? : Option Fault} {words : List (Round α ρ)}
    (h : SendsGroups left groups rounds remaining fault?)
    (hwords : List.Forall₂ (Rendered wording word reply left) words rounds) :
    SendsGroups wording.left (groups.map (List.map word)) words (remaining.map (List.map word))
      fault? := by
  induction h generalizing words with
  | nil =>
      cases hwords
      exact .nil
  | @done group groups remaining rounds more fault? hgroup hmore ih =>
      rw [← List.take_append_drop rounds.length words]
      exact .done (hgroup.rendered (List.forall₂_take_append _ _ _ hwords))
        (ih (List.forall₂_drop_append _ _ _ hwords))
  | stopped groups hgroup => exact .stopped _ (hgroup.rendered hwords)

/-- What related to some of a list can be picked from it. -/
theorem exists_forall₂_of_forall_mem {γ δ : Type} {R : γ → δ → Prop} {xs : List δ} {ys : List γ}
    (h : ∀ x ∈ xs, ∃ y ∈ ys, R y x) :
    ∃ picked, List.Forall₂ R picked xs ∧ ∀ y ∈ picked, y ∈ ys := by
  induction xs with
  | nil => exact ⟨[], .nil, fun _ hmem => absurd hmem List.not_mem_nil⟩
  | cons x xs ih =>
      obtain ⟨y, hy, hrel⟩ := h x List.mem_cons_self
      obtain ⟨picked, hpicked, hsub⟩ := ih fun x hx => h x (List.mem_cons_of_mem _ hx)
      exact ⟨y :: picked, .cons hrel hpicked, List.forall_mem_cons.mpr ⟨hy, hsub⟩⟩

/-- A group that took all the rounds it was allowed took as many in words. -/
theorem Exhausted.rendered {bound : Nat} {groups : List (List β)} {rounds : List (Round β τ)}
    {words : List (Round α ρ)} (h : Exhausted left bound groups rounds)
    (hwords : List.Forall₂ (Rendered wording word reply left) words rounds) :
    Exhausted wording.left bound (groups.map (List.map word)) words := by
  obtain ⟨group, hmem, tries, rest, hresends, hne, hlength, hsub⟩ := h
  have hpick : ∀ round ∈ tries, ∃ other ∈ words, Rendered wording word reply left other round := by
    intro round hround
    obtain ⟨i, hi, rfl⟩ := List.getElem_of_mem (hsub round hround)
    have hi' : i < words.length := hwords.length_eq ▸ hi
    exact ⟨words[i], List.getElem_mem hi', hwords.get hi' hi⟩
  obtain ⟨picked, hpicked, hfrom⟩ := exists_forall₂_of_forall_mem hpick
  refine ⟨group.map word, List.mem_map_of_mem hmem, picked, rest.map word,
    hresends.rendered hpicked, by simpa using hne, ?_, hfrom⟩
  rw [hpicked.length_eq, hlength]

variable {codec : Codec} {transport : Transport σ} {sendable : List β → Prop}
  {exchange : Round β τ → Exchange}

/-- What a round sends is posted. -/
theorem Renders.round (h : Renders wording word reply left codec transport sendable exchange)
    {round : Round β τ} {state later : σ × List Letter}
    (hserves : (codec.store transport.logging).Serves state [exchange round] later)
    (hsendable : sendable round.submitted)
    (hpostpones : ∀ letter ∈ later.2, wording.Postpones letter) :
    ∃ letter words, later.2 = state.2 ++ [letter] ∧ wording.Carries letter words ∧
      Rendered wording word reply left words round ∧
      ∀ result, round.answer = .ok result → (left result).Sublist round.submitted := by
  obtain ⟨letter, hletters, hmakes, hanswer⟩ := h.posts hsendable hserves
  have hmem : letter ∈ later.2 := by
    rw [hletters]
    exact List.mem_append_right _ (List.mem_singleton_self _)
  have hpart : ∀ answer, wording.answer (round.submitted.map word) letter.delivery = .ok answer →
      (wording.left answer).Sublist (round.submitted.map word) :=
    fun answer => hpostpones letter hmem _ answer ((hmakes _).mpr rfl)
  refine ⟨letter, ⟨round.submitted.map word,
    wording.answer (round.submitted.map word) letter.delivery⟩, hletters, ⟨hmakes, rfl⟩,
    ⟨rfl, hanswer, fun answer hok => (h.left (hpart answer hok)).2⟩, fun result hresult => ?_⟩
  rw [hresult] at hanswer
  cases hworded : wording.answer (round.submitted.map word) letter.delivery with
  | error fault =>
      rw [hworded] at hanswer
      cases hanswer
  | ok answer =>
      rw [hworded] at hanswer
      cases hanswer
      exact (h.left (hpart answer hworded)).1

/-- What a group sends is posted. -/
theorem Renders.resends (h : Renders wording word reply left codec transport sendable exchange)
    {pending rest : List β} {rounds : List (Round β τ)} {fault? : Option Fault}
    (hresends : Resends left pending rounds rest fault?) {state later : σ × List Letter}
    (hserves : (codec.store transport.logging).Serves state (rounds.map exchange) later)
    (hsendable : sendable pending) (hpostpones : ∀ letter ∈ later.2, wording.Postpones letter) :
    ∃ letters words, later.2 = state.2 ++ letters ∧ List.Forall₂ wording.Carries letters words ∧
      List.Forall₂ (Rendered wording word reply left) words rounds ∧
      ∀ round ∈ words, round.submitted.Sublist (pending.map word) := by
  induction hresends generalizing state with
  | start pending =>
      cases hserves
      exact ⟨[], [], by simp, .nil, .nil, fun _ hmem => absurd hmem List.not_mem_nil⟩
  | failed hne fault =>
      obtain ⟨letter, words, hletters, hcarries, hwords, -⟩ :=
        h.round hserves hsendable hpostpones
      refine ⟨[letter], [words], hletters, .cons hcarries .nil, .cons hwords .nil, ?_⟩
      intro round hmem
      rw [List.mem_singleton.mp hmem, hwords.submitted]
  | @again pending rest rounds fault? hne answer hmore ih =>
      have hsplit : (codec.store transport.logging).Serves state
          ([exchange ⟨pending, .ok answer⟩] ++ rounds.map exchange) later := hserves
      obtain ⟨middle, hfirst, hrest⟩ := Store.serves_append.mp hsplit
      have hkept := Codec.letters_isPrefix hrest
      obtain ⟨letter, first, hletter, hcarried, hfirst, hpart⟩ :=
        h.round hfirst hsendable fun letter hmem => hpostpones letter (hkept.subset hmem)
      obtain ⟨letters, words, hletters, hcarries, hwords, hparts⟩ :=
        ih hrest (h.shrinks (hpart answer rfl) hsendable)
      refine ⟨letter :: letters, first :: words, ?_, .cons hcarried hcarries,
        .cons hfirst hwords, List.forall_mem_cons.mpr ⟨?_, fun round hmem => ?_⟩⟩
      · rw [hletters, hletter, List.append_assoc, List.singleton_append]
      · rw [hfirst.submitted]
      · exact (hparts round hmem).trans ((hpart answer rfl).map word)

/-- **What a batch sends is posted** in words, and nothing else is. -/
theorem Renders.sends (h : Renders wording word reply left codec transport sendable exchange)
    {groups remaining : List (List β)} {rounds : List (Round β τ)} {fault? : Option Fault}
    (hsends : SendsGroups left groups rounds remaining fault?) {state later : σ × List Letter}
    (hserves : (codec.store transport.logging).Serves state (rounds.map exchange) later)
    (hsendable : ∀ group ∈ groups, sendable group)
    (hpostpones : ∀ letter ∈ later.2, wording.Postpones letter) :
    ∃ letters words, later.2 = state.2 ++ letters ∧ List.Forall₂ wording.Carries letters words ∧
      List.Forall₂ (Rendered wording word reply left) words rounds ∧
      ∀ round ∈ words, ∃ group ∈ groups.map (List.map word), round.submitted.Sublist group := by
  induction hsends generalizing state with
  | nil =>
      cases hserves
      exact ⟨[], [], by simp, .nil, .nil, fun _ hmem => absurd hmem List.not_mem_nil⟩
  | @done group groups remaining rounds more fault? hgroup hmore ih =>
      rw [List.map_append] at hserves
      obtain ⟨middle, hfirst, hrest⟩ := Store.serves_append.mp hserves
      have hkept := Codec.letters_isPrefix hrest
      obtain ⟨letters, words, hletters, hcarries, hwords, hparts⟩ :=
        h.resends hgroup hfirst (hsendable group List.mem_cons_self)
          fun letter hmem => hpostpones letter (hkept.subset hmem)
      obtain ⟨more, others, hmore, hcarries', hwords', hparts'⟩ :=
        ih hrest fun group hmem => hsendable group (List.mem_cons_of_mem _ hmem)
      refine ⟨letters ++ more, words ++ others, ?_, List.rel_append hcarries hcarries',
        List.rel_append hwords hwords', fun round hround => ?_⟩
      · rw [hmore, hletters, List.append_assoc]
      · rcases List.mem_append.mp hround with hround | hround
        · exact ⟨_, List.mem_cons_self, hparts round hround⟩
        · obtain ⟨other, hother, hpart⟩ := hparts' round hround
          exact ⟨other, List.mem_cons_of_mem _ hother, hpart⟩
  | @stopped group rest groups rounds fault? hgroup =>
      obtain ⟨letters, words, hletters, hcarries, hwords, hparts⟩ :=
        h.resends hgroup hserves (hsendable group List.mem_cons_self) hpostpones
      exact ⟨letters, words, hletters, hcarries, hwords,
        fun round hround => ⟨_, List.mem_cons_self, hparts round hround⟩⟩

/-- **Nothing is lost** when what the answers leave over is a part of what was submitted. -/
theorem Renders.resubmits (h : Renders wording word reply left codec transport sendable exchange)
    {bound : Nat} {groups remaining : List (List β)} {rounds : List (Round β τ)}
    {fault? : Option Fault} (hsends : SendsGroups left groups rounds remaining fault?)
    {state later : σ} {letters : List Letter}
    (hserves : (codec.store transport.logging).Serves (state, []) (rounds.map exchange)
      (later, letters))
    (hdone : fault? = none → remaining = [] ∨ Exhausted left bound groups rounds)
    (hgroups : ∀ group ∈ groups, sendable group ∧ group ≠ [])
    (hpostpones : ∀ letter ∈ letters, wording.Postpones letter) :
    ∃ words, wording.Resubmits bound (groups.map (List.map word)) letters words
        (remaining.map (List.map word)) fault? ∧
      List.Forall₂ (Rendered wording word reply left) words rounds := by
  obtain ⟨posted, words, hletters, hcarries, hwords, hpart⟩ :=
    h.sends hsends hserves (fun group hmem => (hgroups group hmem).1) hpostpones
  obtain rfl : letters = posted := hletters
  refine ⟨words, .of_sends hcarries (hsends.rendered hwords) hpart ?_ fun hnone => ?_, hwords⟩
  · intro group hmem
    obtain ⟨group, hgroup, rfl⟩ := List.mem_map.mp hmem
    simpa using (hgroups group hgroup).2
  · rcases hdone hnone with hall | hexhausted
    · exact .inl (by rw [hall]; rfl)
    · exact .inr (hexhausted.rendered hwords)

end Rendering

end KeywordTable
