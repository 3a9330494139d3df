import KeywordTable.Proofs.Spelling
import Mathlib.Data.List.Induction
import Mathlib.Data.List.Nodup

/-!
# What was handed out, and what for

A **ledger** says of every token that a supply has handed out what it was asked for, in the
order of time.  Whatever is written with a supply does nothing to it but ask (`Takes`), so each
point of a session has a ledger, and what is true of ledgers is true of sessions.

The step is `Ledger.Balances.intern`: when a supply was asked once more, its names and values
still are those of the ledger, each in the place of its first use.  A token shows this place.
So different meanings have different tokens, and the maps that are sent along explain the tokens
of the ledger and no others (`Ledger.Balances.faithful`).
-/

namespace KeywordTable

open Placeholders

namespace Meaning

/-- The name that the token stands for. -/
def name? : Meaning → Option String
  | .ofName name => some name
  | .ofValue _ => none

/-- The value that the token stands for. -/
def value? : Meaning → Option Value
  | .ofName _ => none
  | .ofValue value => some value

/-- A meaning is a name if it is the meaning of that name. -/
theorem name?_eq_some_iff {meaning : Meaning} {name : String} :
    meaning.name? = some name ↔ meaning = .ofName name := by
  cases meaning <;> simp [name?]

theorem value?_eq_some_iff {meaning : Meaning} {value : Value} :
    meaning.value? = some value ↔ meaning = .ofValue value := by
  cases meaning <;> simp [value?]

/-- Has the supply handed out a token for it? -/
def KnownTo (supply : Placeholders) : Meaning → Prop
  | .ofName name => name ∈ supply.names
  | .ofValue value => value ∈ supply.values

end Meaning

/-! ### Lists that grow by what is new -/

section Growing

variable {α : Type} [DecidableEq α] {xs ys : List α} {x : α}

/-- What comes last counts only if it did not come before. -/
theorem eraseDups_concat (xs : List α) (x : α) :
    (xs ++ [x]).eraseDups =
      if x ∈ xs.eraseDups then xs.eraseDups else xs.eraseDups ++ [x] := by
  rw [List.eraseDups_append]
  by_cases h : x ∈ xs <;> simp [List.removeAll, List.eraseDups_cons, h]

/-- What counts once does not come twice. -/
theorem nodup_eraseDups (xs : List α) : xs.eraseDups.Nodup := by
  induction xs using List.reverseRecOn with
  | nil => simp
  | append_singleton xs x ih =>
      rw [eraseDups_concat]
      split
      · exact ih
      · next hx =>
          rw [← List.concat_eq_append]
          exact List.Nodup.concat hx ih

/-- What is new at the end changes no place in front of it. -/
theorem idxOf_of_isPrefix (h : xs <+: ys) (hx : x ∈ xs) : ys.idxOf x = xs.idxOf x := by
  obtain ⟨rest, rfl⟩ := h
  exact List.idxOf_append_of_mem hx

/-- The place at which something is found is known before it is put there. -/
theorem idxOf_added (xs : List α) (x : α) :
    (if x ∈ xs then xs else xs ++ [x]).idxOf x = xs.idxOf x := by
  split
  · rfl
  · next hx =>
      rw [List.idxOf_append_of_notMem hx, List.idxOf_eq_length hx]
      simp

/-- Where nothing comes twice, what stands at a place is found at that place. -/
theorem idxOf_of_getElem? (h : xs.Nodup) {place : Nat} (hx : xs[place]? = some x) :
    xs.idxOf x = place := by
  obtain ⟨hplace, rfl⟩ := List.getElem?_eq_some_iff.mp hx
  exact h.idxOf_getElem place hplace

/-- In a numbered list without repetitions, a token finds what stands at its place. -/
theorem lookup_mapIdx_eq_some_iff {token : Nat → String} (htoken : Function.Injective token)
    (h : xs.Nodup) {text : String} :
    (xs.mapIdx fun i x => (token i, x)).lookup text = some x ↔
      x ∈ xs ∧ token (xs.idxOf x) = text := by
  by_cases hplace : ∃ place, token place = text
  · obtain ⟨place, rfl⟩ := hplace
    rw [lookup_mapIdx htoken, htoken.eq_iff]
    constructor
    · intro hx
      exact ⟨List.mem_of_getElem? hx, idxOf_of_getElem? h hx⟩
    · rintro ⟨hx, rfl⟩
      exact List.getElem?_idxOf hx
  · constructor
    · intro hx
      have hnone : (xs.mapIdx fun i x => (token i, x)).lookup text = none := by
        rw [List.lookup_eq_none_iff]
        intro entry hentry
        obtain ⟨place, _, rfl⟩ := List.mem_mapIdx.mp hentry
        have hne : token place ≠ text := fun heq => hplace ⟨place, heq⟩
        simpa using hne.symm
      rw [hnone] at hx
      cases hx
    · rintro ⟨_, htext⟩
      exact absurd ⟨_, htext⟩ hplace

omit [DecidableEq α] in

/-- Numbered by an injective numbering, no two places share a token. -/
theorem nodup_names_mapIdx {token : Nat → String} (htoken : Function.Injective token)
    (xs : List α) : (Fields.names (xs.mapIdx fun i x => (token i, x))).Nodup := by
  rw [Fields.names, List.Nodup, List.pairwise_iff_getElem]
  intro i j hi hj hij
  simpa using fun heq => Nat.ne_of_lt hij (htoken heq)

end Growing

/-! ### One more token -/

namespace Meaning

variable {supply later : Placeholders} {meaning : Meaning}

/-- Nothing happens to a supply that is asked again. -/
theorem intern_of_known (h : meaning.KnownTo supply) : (meaning.intern supply).2 = supply := by
  cases meaning with
  | ofName name => exact if_pos h
  | ofValue value => exact if_pos h

/-- Later the token is the same. -/
theorem intern_of_reaches (h : supply.Reaches later) (hknown : meaning.KnownTo supply) :
    (meaning.intern later).1 = (meaning.intern supply).1 := by
  cases meaning with
  | ofName name => exact congrArg nameToken (idxOf_of_isPrefix h.names_kept hknown)
  | ofValue value => exact congrArg valueToken (idxOf_of_isPrefix h.values_kept hknown)

/-- Asked for again at once, the token is the same. -/
theorem intern_intern (meaning : Meaning) (supply : Placeholders) :
    (meaning.intern (meaning.intern supply).2).1 = (meaning.intern supply).1 := by
  cases meaning with
  | ofName name =>
      show nameToken ((internName name supply).2.names.idxOf name) = _
      rw [names_internName, idxOf_added]
      rfl
  | ofValue value =>
      show valueToken ((internValue value supply).2.values.idxOf value) = _
      rw [values_internValue, idxOf_added]
      rfl

/-- No name shares its token with a value. -/
theorem nameToken_ne_valueToken (i j : Nat) : nameToken i ≠ valueToken j :=
  nameToken_ne i (valueToken j) (by simp [valueToken])

/-- **Different meanings have different tokens.** -/
theorem intern_eq_iff {other : Meaning} (h : meaning.KnownTo supply) :
    (meaning.intern supply).1 = (other.intern supply).1 ↔ meaning = other := by
  cases meaning with
  | ofName name =>
      cases other with
      | ofName other =>
          show nameToken (supply.names.idxOf name) = nameToken (supply.names.idxOf other) ↔ _
          rw [nameToken_injective.eq_iff, List.idxOf_inj h, ofName.injEq]
      | ofValue value =>
          have hne := nameToken_ne_valueToken (supply.names.idxOf name)
            (supply.values.idxOf value)
          exact iff_of_false hne (by simp)
  | ofValue value =>
      cases other with
      | ofName name =>
          have hne := nameToken_ne_valueToken (supply.names.idxOf name)
            (supply.values.idxOf value)
          exact iff_of_false hne.symm (by simp)
      | ofValue other =>
          show valueToken (supply.values.idxOf value) = valueToken (supply.values.idxOf other) ↔ _
          rw [valueToken_injective.eq_iff, List.idxOf_inj h, ofValue.injEq]

end Meaning

namespace Ledger

variable {ledger : Ledger} {supply : Placeholders}

/-- The names that were asked for, each as often as it was. -/
def names (ledger : Ledger) : List String := ledger.filterMap fun entry => entry.1.name?

/-- The values that were asked for, each as often as it was. -/
def values (ledger : Ledger) : List Value := ledger.filterMap fun entry => entry.1.value?

/-- The names of a ledger are those that it has an entry for. -/
theorem mem_names {name : String} :
    name ∈ ledger.names ↔ ∃ token, (Meaning.ofName name, token) ∈ ledger := by
  simp [names, Meaning.name?_eq_some_iff]

theorem mem_values {value : Value} :
    value ∈ ledger.values ↔ ∃ token, (Meaning.ofValue value, token) ∈ ledger := by
  simp [values, Meaning.value?_eq_some_iff]

/-- An entry for a name adds this name and an entry for a value none. -/
theorem names_concat (ledger : Ledger) (meaning : Meaning) (token : String) :
    names (ledger ++ [(meaning, token)]) = ledger.names ++ meaning.name?.toList := by
  rw [names, List.filterMap_append]
  cases meaning <;> rfl

theorem values_concat (ledger : Ledger) (meaning : Meaning) (token : String) :
    values (ledger ++ [(meaning, token)]) = ledger.values ++ meaning.value?.toList := by
  rw [values, List.filterMap_append]
  cases meaning <;> rfl

/-- The supply knows what the ledger says, in the order of first use, and would hand out the
same tokens again. -/
structure Balances (ledger : Ledger) (supply : Placeholders) : Prop where
  names : supply.names = ledger.names.eraseDups
  values : supply.values = ledger.values.eraseDups
  token : ∀ entry ∈ ledger, (entry.1.intern supply).1 = entry.2

/-- What a balanced ledger has an entry for, the supply knows. -/
theorem Balances.known (h : ledger.Balances supply) {entry : Meaning × String}
    (hentry : entry ∈ ledger) : entry.1.KnownTo supply := by
  obtain ⟨meaning, token⟩ := entry
  cases meaning with
  | ofName name =>
      show name ∈ supply.names
      rw [h.names, List.mem_eraseDups, mem_names]
      exact ⟨token, hentry⟩
  | ofValue value =>
      show value ∈ supply.values
      rw [h.values, List.mem_eraseDups, mem_values]
      exact ⟨token, hentry⟩

/-- **One more token**, and the ledger still balances. -/
theorem Balances.intern (h : ledger.Balances supply) (meaning : Meaning) :
    Balances (ledger ++ [(meaning, (meaning.intern supply).1)]) (meaning.intern supply).2 where
  names := by
    rw [names_concat]
    cases meaning with
    | ofName name =>
        show (internName name supply).2.names = (ledger.names ++ [name]).eraseDups
        rw [names_internName, h.names]
        exact (eraseDups_concat _ _).symm
    | ofValue value =>
        show (internValue value supply).2.names = (ledger.names ++ []).eraseDups
        rw [names_internValue, List.append_nil]
        exact h.names
  values := by
    rw [values_concat]
    cases meaning with
    | ofName name =>
        show (internName name supply).2.values = (ledger.values ++ []).eraseDups
        rw [values_internName, List.append_nil]
        exact h.values
    | ofValue value =>
        show (internValue value supply).2.values = (ledger.values ++ [value]).eraseDups
        rw [values_internValue, h.values]
        exact (eraseDups_concat _ _).symm
  token entry hentry := by
    rcases List.mem_append.mp hentry with hold | hnew
    · rw [Meaning.intern_of_reaches ((takes_intern meaning).grows supply) (h.known hold)]
      exact h.token entry hold
    · rw [List.mem_singleton.mp hnew]
      exact meaning.intern_intern supply

/-- Handing out more tokens keeps the ledger balanced. -/
theorem Balances.handOut (h : ledger.Balances supply) (meanings : List Meaning) :
    Balances (ledger ++ (handOut meanings supply).1) (handOut meanings supply).2 := by
  induction meanings generalizing ledger supply with
  | nil =>
      show Balances (ledger ++ []) supply
      rwa [List.append_nil]
  | cons meaning meanings ih =>
      have hrest := ih (h.intern meaning)
      rw [handOut_cons, List.append_cons]
      exact hrest

/-- The ledger of an untouched supply. -/
theorem balances_nil : Balances [] {} := ⟨rfl, rfl, fun _ hentry => absurd hentry (by simp)⟩

/-- What is in the ledger is what the supply knows, under the token that it would hand out. -/
theorem Balances.mem_iff (h : ledger.Balances supply) {meaning : Meaning} {token : String} :
    (meaning, token) ∈ ledger ↔ meaning.KnownTo supply ∧ (meaning.intern supply).1 = token := by
  constructor
  · intro hentry
    exact ⟨h.known hentry, h.token _ hentry⟩
  · rintro ⟨hknown, rfl⟩
    have hsome : ∃ token, (meaning, token) ∈ ledger := by
      cases meaning with
      | ofName name =>
          have hname : name ∈ supply.names := hknown
          rwa [h.names, List.mem_eraseDups, mem_names] at hname
      | ofValue value =>
          have hvalue : value ∈ supply.values := hknown
          rwa [h.values, List.mem_eraseDups, mem_values] at hvalue
    obtain ⟨token, hentry⟩ := hsome
    rwa [h.token _ hentry]

/-- Ledger and supply say the same: which tokens there are, and what each of them stands for. -/
structure Faithful (ledger : Ledger) (supply : Placeholders) : Prop where
  /-- Two tokens are the same exactly if they were handed out for the same. -/
  token_eq_iff : ∀ first ∈ ledger, ∀ second ∈ ledger, first.2 = second.2 ↔ first.1 = second.1
  /-- Who asks again gets the same token, and the supply stays as it is. -/
  again : ∀ entry ∈ ledger, entry.1.intern supply = (entry.2, supply)
  /-- The token of a name shows how many other names were asked for before it. -/
  name : ∀ (place : Nat) name, ledger.names.eraseDups[place]? = some name →
    (Meaning.ofName name, "#n" ++ toString place) ∈ ledger
  /-- The token of a value does the same among values. -/
  value : ∀ (place : Nat) value, ledger.values.eraseDups[place]? = some value →
    (Meaning.ofValue value, ":v" ++ toString place) ∈ ledger
  /-- The name map says what each token was handed out for, once, and nothing else. -/
  nameMap : (Fields.names supply.nameMap).Nodup ∧ ∀ token name,
    supply.nameMap.lookup token = some name ↔ (Meaning.ofName name, token) ∈ ledger
  /-- So does the value map. -/
  valueMap : (Fields.names supply.valueMap).Nodup ∧ ∀ token value,
    supply.valueMap.lookup token = some value ↔ (Meaning.ofValue value, token) ∈ ledger

/-- **A balanced ledger is faithful**: it tells what each token stands for. -/
theorem Balances.faithful (h : ledger.Balances supply) : ledger.Faithful supply where
  token_eq_iff first hfirst second hsecond := by
    rw [← h.token first hfirst, ← h.token second hsecond]
    exact Meaning.intern_eq_iff (h.known hfirst)
  again entry hentry := Prod.ext (h.token entry hentry) (Meaning.intern_of_known (h.known hentry))
  name place name hname := by
    have hplace : supply.names.idxOf name = place := by
      rw [h.names]
      exact idxOf_of_getElem? (nodup_eraseDups _) hname
    have hknown : name ∈ supply.names := h.names ▸ List.mem_of_getElem? hname
    exact h.mem_iff.mpr ⟨hknown, congrArg nameToken hplace⟩
  value place value hvalue := by
    have hplace : supply.values.idxOf value = place := by
      rw [h.values]
      exact idxOf_of_getElem? (nodup_eraseDups _) hvalue
    have hknown : value ∈ supply.values := h.values ▸ List.mem_of_getElem? hvalue
    exact h.mem_iff.mpr ⟨hknown, congrArg valueToken hplace⟩
  nameMap := by
    have hnodup : supply.names.Nodup := h.names ▸ nodup_eraseDups _
    refine ⟨nodup_names_mapIdx nameToken_injective _, fun token name => ?_⟩
    have hentry : (Meaning.ofName name, token) ∈ ledger ↔
        name ∈ supply.names ∧ nameToken (supply.names.idxOf name) = token := h.mem_iff
    rw [hentry]
    exact lookup_mapIdx_eq_some_iff nameToken_injective hnodup
  valueMap := by
    have hnodup : supply.values.Nodup := h.values ▸ nodup_eraseDups _
    refine ⟨nodup_names_mapIdx valueToken_injective _, fun token value => ?_⟩
    have hentry : (Meaning.ofValue value, token) ∈ ledger ↔
        value ∈ supply.values ∧ valueToken (supply.values.idxOf value) = token := h.mem_iff
    rw [hentry]
    exact lookup_mapIdx_eq_some_iff valueToken_injective hnodup

end Ledger

/-! ### Sessions -/

/-- What is written with a supply. -/
inductive Piece where
  | ofName (name : String)
  | ofPath (path : AttributePath)
  | ofValue (value : Value)
  | ofCondition (condition : Condition)
  | ofChanges (changes : List Change)
  | ofSelection (selection : Selection)

namespace Piece

/-- The text of the piece. -/
def render : Piece → Interning String
  | .ofName name => internName name
  | .ofPath path => internPath path
  | .ofValue value => internValue value
  | .ofCondition condition => condition.render
  | .ofChanges changes => Change.renderAll changes
  | .ofSelection selection => selection.render

/-- What the text speaks of, in the order in which it is asked for. -/
def meanings : Piece → List Meaning
  | .ofName name => [.ofName name]
  | .ofPath path => path.meanings
  | .ofValue value => [.ofValue value]
  | .ofCondition condition => condition.meanings
  | .ofChanges changes => changes.flatMap Change.meanings
  | .ofSelection selection => selection.meanings

/-- Is the text nothing but tokens? -/
def isPlain : Piece → Bool
  | .ofName _ | .ofPath _ | .ofValue _ => true
  | .ofCondition _ | .ofChanges _ | .ofSelection _ => false

/-- A piece takes the tokens of what it means. -/
theorem takes_render (piece : Piece) : Takes piece.render piece.meanings := by
  cases piece with
  | ofName name => exact takes_internName name
  | ofPath path => exact takes_internPath path
  | ofValue value => exact takes_internValue value
  | ofCondition condition => exact condition.takes_render
  | ofChanges changes => exact Change.takes_renderAll changes
  | ofSelection selection => exact selection.takes_render

/-- A piece without operators is spelled by its tokens alone. -/
theorem render_plain {piece : Piece} (h : piece.isPlain = true) (supply : Placeholders) :
    (piece.render supply).1 = ".".intercalate (handOut piece.meanings supply).1.tokens := by
  cases piece with
  | ofName name => exact (String.intercalate_singleton ..).symm
  | ofPath path => exact congrArg Prod.fst (internPath_eq path supply)
  | ofValue value => exact (String.intercalate_singleton ..).symm
  | ofCondition | ofChanges | ofSelection => cases h

/-- The ledger of a session in which the pieces are written one after the other, with a supply
that is untouched at first. -/
def ledger (pieces : List Piece) : Ledger := (handOut (pieces.flatMap Piece.meanings) {}).1

end Piece

/-- What a supply promises to the pieces of a session. -/
structure Interns (pieces : List Piece) : Prop where
  /-- They ask it for their meanings, in order, and their texts are made of the tokens. -/
  takes : Takes (pieces.mapM Piece.render) (pieces.flatMap Piece.meanings)
  /-- A name, a path or a value is written as its tokens, with dots between them. -/
  plain : ∀ piece ∈ pieces, piece.isPlain = true → ∀ supply,
    (piece.render supply).1 = ".".intercalate (handOut piece.meanings supply).1.tokens
  /-- When all of them are written, ledger and supply say the same. -/
  faithful : (Piece.ledger pieces).Faithful (pieces.mapM Piece.render {}).2
  /-- So they did at every point before, and of the ledger up to there nothing has changed. -/
  before : ∀ point,
    let taken := handOut ((pieces.flatMap Piece.meanings).take point) {}
    Ledger.Faithful taken.1 taken.2 ∧ taken.1 = (Piece.ledger pieces).take point

/-- Whatever is handed out by a fresh supply makes a faithful ledger. -/
theorem faithful_handOut (meanings : List Meaning) :
    Ledger.Faithful (handOut meanings {}).1 (handOut meanings {}).2 :=
  (Ledger.balances_nil.handOut meanings).faithful

/-- **Tokens are handed out to meanings one to one, for good, and in the order of first use.** -/
theorem Piece.interns (pieces : List Piece) : Interns pieces where
  takes := takes_mapM Piece.takes_render pieces
  plain _ _ := Piece.render_plain
  faithful := by
    obtain ⟨make, hmake⟩ := takes_mapM Piece.takes_render pieces
    rw [hmake]
    exact faithful_handOut _
  before _ := ⟨faithful_handOut _, handOut_take _ _ _⟩

/-- Names and values are counted apart, and who asks again gets what was handed out. -/
example : (Piece.ledger
    [.ofName "day", .ofValue (.number "1"), .ofName "account", .ofName "day"]).tokens =
      ["#n0", ":v0", "#n1", "#n0"] := by
  decide

end KeywordTable
