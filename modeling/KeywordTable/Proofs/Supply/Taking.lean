import KeywordTable.Condition
import KeywordTable.Proofs.Supply
import KeywordTable.Update

/-!
# What is written takes tokens and nothing else

Whatever is written with a supply asks it for tokens, one after the other.  Which ones
depends on what is written alone, and the text is made of the tokens that come back.  `Takes`
says this of a computation and of the **meanings** that it asks for, in order.

The law is proved for binds and lists and then, once, for each renderer.  That renderers move a
supply forward (`Grows`) is a consequence.
-/

namespace KeywordTable

open Placeholders

/-- What a token stands for. -/
inductive Meaning where
  | ofName (name : String)
  | ofValue (value : Value)
deriving DecidableEq

/-- Ask a supply for the token. -/
def Meaning.intern : Meaning → Interning String
  | .ofName name => internName name
  | .ofValue value => internValue value

/-- Tokens in the order in which they were handed out, each beside what it was asked for. -/
abbrev Ledger := List (Meaning × String)

/-- The tokens alone. -/
def Ledger.tokens (ledger : Ledger) : List String := ledger.map Prod.snd

/-- The tokens of two ledgers are those of the first and then those of the second. -/
theorem Ledger.tokens_append (earlier later : Ledger) :
    Ledger.tokens (earlier ++ later) = earlier.tokens ++ later.tokens :=
  List.map_append

/-- Ask for the tokens of meanings in turn, and keep a ledger. -/
def handOut (meanings : List Meaning) : Interning Ledger :=
  meanings.mapM fun meaning => return (meaning, ← meaning.intern)

variable {α β : Type}

/-- The run asks for the tokens of these meanings, in this order, and makes its result of them.
Nothing else happens to the supply. -/
def Takes (run : Interning α) (meanings : List Meaning) : Prop :=
  ∃ make : List String → α, ∀ supply,
    run supply = (make (handOut meanings supply).1.tokens, (handOut meanings supply).2)

/-! ### Handing out -/

/-- The first meaning gets its token, and the others get theirs afterwards. -/
theorem handOut_cons (meaning : Meaning) (meanings : List Meaning) (supply : Placeholders) :
    handOut (meaning :: meanings) supply =
      ((meaning, (meaning.intern supply).1) :: (handOut meanings (meaning.intern supply).2).1,
        (handOut meanings (meaning.intern supply).2).2) := by
  rw [handOut, List.mapM_cons]
  rfl

/-- Meanings that come one list after the other get their tokens in this order. -/
theorem handOut_append (earlier later : List Meaning) (supply : Placeholders) :
    handOut (earlier ++ later) supply =
      ((handOut earlier supply).1 ++ (handOut later (handOut earlier supply).2).1,
        (handOut later (handOut earlier supply).2).2) := by
  induction earlier generalizing supply with
  | nil => rfl
  | cons meaning earlier ih =>
      rw [List.cons_append, handOut_cons, handOut_cons, ih]
      rfl

/-- The beginning of a ledger is the ledger of the beginning. -/
theorem handOut_take (meanings : List Meaning) (point : Nat) (supply : Placeholders) :
    (handOut (meanings.take point) supply).1 = (handOut meanings supply).1.take point := by
  induction meanings generalizing point supply with
  | nil => rw [List.take_nil]; exact List.take_nil.symm
  | cons meaning meanings ih =>
      cases point with
      | zero => rfl
      | succ point => rw [List.take_succ_cons, handOut_cons, handOut_cons, ih, List.take_succ_cons]

/-- Every meaning gets a token. -/
theorem length_tokens_handOut (meanings : List Meaning) (supply : Placeholders) :
    (handOut meanings supply).1.tokens.length = meanings.length := by
  rw [Ledger.tokens, List.length_map]
  induction meanings generalizing supply with
  | nil => rfl
  | cons meaning meanings ih => rw [handOut_cons, List.length_cons, List.length_cons, ih]

/-- Handing out only moves a supply forward. -/
theorem reaches_handOut (meanings : List Meaning) (supply : Placeholders) :
    supply.Reaches (handOut meanings supply).2 := by
  induction meanings generalizing supply with
  | nil => exact Reaches.refl supply
  | cons meaning meanings ih =>
      have hfirst : supply.Reaches (meaning.intern supply).2 := by
        cases meaning with
        | ofName name => exact Relation.ReflTransGen.single (Asks.name supply name)
        | ofValue value => exact Relation.ReflTransGen.single (Asks.value supply value)
      rw [handOut_cons]
      exact hfirst.trans (ih _)

/-! ### The law -/

/-- What takes no token at all. -/
theorem takes_pure (x : α) : Takes (pure x) [] :=
  ⟨fun _ => x, fun _ => rfl⟩

/-- Asking for a token takes that token. -/
theorem takes_intern (meaning : Meaning) : Takes meaning.intern [meaning] :=
  ⟨fun tokens => tokens.headD "", fun supply => by rw [handOut_cons]; rfl⟩

theorem takes_internName (name : String) : Takes (internName name) [.ofName name] :=
  takes_intern (.ofName name)

theorem takes_internValue (value : Value) : Takes (internValue value) [.ofValue value] :=
  takes_intern (.ofValue value)

/-- Parts take their tokens one after the other. -/
theorem Takes.bind {run : Interning α} {next : α → Interning β} {first second : List Meaning}
    (hrun : Takes run first) (hnext : ∀ x, Takes (next x) second) :
    Takes (run >>= next) (first ++ second) := by
  obtain ⟨make, hmake⟩ := hrun
  choose makeNext hmakeNext using hnext
  refine ⟨fun tokens =>
    makeNext (make (tokens.take first.length)) (tokens.drop first.length), fun supply => ?_⟩
  have hlength := length_tokens_handOut first supply
  show next (run supply).1 (run supply).2 = _
  rw [hmake, hmakeNext, handOut_append]
  simp only [Ledger.tokens_append, List.take_left' hlength, List.drop_left' hlength]

/-- What is made of a text takes no token. -/
theorem Takes.map {run : Interning α} {meanings : List Meaning} (h : Takes run meanings)
    (f : α → β) : Takes (do return f (← run)) meanings := by
  have hbind := h.bind fun x => takes_pure (f x)
  rwa [List.append_nil] at hbind

/-- The members of a list take their tokens in order. -/
theorem takes_mapM {run : α → Interning β} {meanings : α → List Meaning}
    (h : ∀ x, Takes (run x) (meanings x)) (xs : List α) :
    Takes (xs.mapM run) (xs.flatMap meanings) := by
  induction xs with
  | nil => exact takes_pure []
  | cons x xs ih =>
      rw [List.mapM_cons, List.flatMap_cons]
      exact (h x).bind fun y => ih.map fun ys => y :: ys

/-- Values take their tokens in order. -/
theorem takes_values (values : List Value) :
    Takes (values.mapM internValue) (values.map .ofValue) := by
  rw [List.map_eq_flatMap]
  exact takes_mapM takes_internValue values

/-! ### Renderers -/

/-- The names of a path, outermost first. -/
def AttributePath.meanings (path : AttributePath) : List Meaning := path.names.map .ofName

/-- The operands of a test, in order. -/
def Test.meanings : Test → List Meaning
  | .compare _ operand | .beginsWith operand | .contains operand => [.ofValue operand]
  | .between low high => [.ofValue low, .ofValue high]
  | .among operands => operands.map .ofValue
  | .present | .absent => []

mutual

/-- Test by test, the path of each before its operands. -/
def Condition.meanings : Condition → List Meaning
  | .test path asked => path.meanings ++ asked.meanings
  | .all conditions => Condition.meaningsOfEach conditions

/-- Condition by condition. -/
def Condition.meaningsOfEach : List Condition → List Meaning
  | [] => []
  | condition :: rest => condition.meanings ++ Condition.meaningsOfEach rest

end

/-- Path by path. -/
def Selection.meanings (selection : Selection) : List Meaning :=
  selection.paths.flatMap AttributePath.meanings

/-- The source, if there is one, before the value. -/
def Assigned.meanings : Assigned → List Meaning
  | .literal value => [.ofValue value]
  | .ifNotExists source value | .sum source value | .difference source value
  | .appended source value => source.meanings ++ [.ofValue value]

/-- The target before all else. -/
def Change.meanings : Change → List Meaning
  | .set target assigned => target.meanings ++ assigned.meanings
  | .remove target => target.meanings
  | .add target value | .delete target value => target.meanings ++ [.ofValue value]

/-- The tokens of a path are those of its names, with dots between them. -/
theorem internPath_eq (path : AttributePath) (supply : Placeholders) :
    internPath path supply =
      (".".intercalate (handOut path.meanings supply).1.tokens,
        (handOut path.meanings supply).2) := by
  have hnames : ∀ (names : List String) (supply : Placeholders), names.mapM internName supply =
      ((handOut (names.map .ofName) supply).1.tokens,
        (handOut (names.map .ofName) supply).2) := by
    intro names
    induction names with
    | nil => intro supply; rfl
    | cons name names ih =>
        intro supply
        rw [List.mapM_cons, List.map_cons, handOut_cons]
        show ((internName name supply).1 :: (names.mapM internName (internName name supply).2).1,
          (names.mapM internName (internName name supply).2).2) = _
        rw [ih]
        rfl
  show (".".intercalate (path.names.mapM internName supply).1,
    (path.names.mapM internName supply).2) = _
  rw [hnames]
  rfl

/-- A path takes the tokens of its names. -/
theorem takes_internPath (path : AttributePath) : Takes (internPath path) path.meanings :=
  ⟨_, internPath_eq path⟩

/-- A test takes the tokens of its operands. -/
theorem Test.takes_render (path : String) (asked : Test) :
    Takes (asked.render path) asked.meanings := by
  cases asked with
  | compare _ operand => exact (takes_internValue operand).map _
  | between low high =>
      exact (takes_internValue low).bind fun _ => (takes_internValue high).map _
  | among operands => exact (takes_values operands).map _
  | beginsWith operand | contains operand => exact (takes_internValue operand).map _
  | present | absent => exact takes_pure _

mutual

/-- A condition takes the tokens of its tests in reading order. -/
theorem Condition.takes_render : ∀ condition : Condition, Takes condition.render condition.meanings
  | .test path asked => by
      rw [Condition.render, Condition.meanings]
      exact (takes_internPath path).bind fun _ => asked.takes_render _
  | .all conditions => by
      rw [Condition.render, Condition.meanings]
      exact (Condition.takes_renderEach conditions).map _

/-- The parts of a conjunction take theirs in order. -/
theorem Condition.takes_renderEach : ∀ conditions : List Condition,
    Takes (Condition.renderEach conditions) (Condition.meaningsOfEach conditions)
  | [] => by
      rw [Condition.renderEach, Condition.meaningsOfEach]
      exact takes_pure _
  | condition :: rest => by
      rw [Condition.renderEach, Condition.meaningsOfEach]
      exact (Condition.takes_render condition).bind fun _ =>
        (Condition.takes_renderEach rest).map _

end

/-- A selection takes the tokens of its paths. -/
theorem Selection.takes_render (selection : Selection) :
    Takes selection.render selection.meanings :=
  (takes_mapM takes_internPath selection.paths).map _

/-- What an attribute is set to takes the token of a source before that of a value. -/
theorem Assigned.takes_render (assigned : Assigned) :
    Takes assigned.render assigned.meanings := by
  cases assigned with
  | literal value => exact takes_internValue value
  | ifNotExists source value | sum source value | difference source value
  | appended source value =>
      exact (takes_internPath source).bind fun _ => (takes_internValue value).map _

/-- A change takes the tokens of its target first. -/
theorem Change.takes_render (change : Change) : Takes change.render change.meanings := by
  cases change with
  | set target assigned =>
      exact (takes_internPath target).bind fun _ => assigned.takes_render.map _
  | remove target => exact takes_internPath target
  | add target value | delete target value =>
      exact (takes_internPath target).bind fun _ => (takes_internValue value).map _

/-- The changes of an update take theirs in the order of the update, whatever their clauses. -/
theorem Change.takes_renderAll (changes : List Change) :
    Takes (Change.renderAll changes) (changes.flatMap Change.meanings) :=
  (takes_mapM (fun change => change.takes_render.map _) changes).map _

/-! ### What moves a supply forward -/

/-- A computation that does nothing to the supply but ask it for tokens. -/
def Grows (run : Interning α) : Prop :=
  ∀ supply : Placeholders, supply.Reaches (run supply).2

/-- What takes tokens only ever adds to the supply. -/
theorem Takes.grows {run : Interning α} {meanings : List Meaning} (h : Takes run meanings) :
    Grows run := by
  obtain ⟨make, hmake⟩ := h
  intro supply
  rw [hmake]
  exact reaches_handOut meanings supply

theorem grows_mapM {run : α → Interning β} (hrun : ∀ x, Grows (run x)) (xs : List α) :
    Grows (xs.mapM run) := by
  induction xs with
  | nil => exact fun supply => Reaches.refl supply
  | cons x xs ih =>
      intro supply
      rw [List.mapM_cons]
      exact (hrun x supply).trans (ih _)

theorem grows_internName (name : String) : Grows (internName name) :=
  (takes_internName name).grows

theorem grows_internValue (value : Value) : Grows (internValue value) :=
  (takes_internValue value).grows

theorem Test.grows_render (path : String) (asked : Test) : Grows (asked.render path) :=
  (asked.takes_render path).grows

theorem Condition.grows_renderEach (conditions : List Condition) :
    Grows (Condition.renderEach conditions) :=
  (Condition.takes_renderEach conditions).grows

theorem Condition.grows_render? (condition : Option Condition) :
    Grows (Condition.render? condition) := by
  cases condition with
  | none => exact (takes_pure _).grows
  | some condition => exact (condition.takes_render.map _).grows

theorem Selection.grows_render (selection : Selection) : Grows selection.render :=
  selection.takes_render.grows

theorem Selection.grows_render? (selection : Selection) : Grows selection.render? := by
  unfold Selection.render?
  split
  · exact (takes_pure _).grows
  · exact (selection.takes_render.map _).grows

theorem Assigned.grows_render (assigned : Assigned) : Grows assigned.render :=
  assigned.takes_render.grows

/-- Writing an update only adds to the supply. -/
theorem Change.grows_renderAll (changes : List Change) : Grows (Change.renderAll changes) :=
  (Change.takes_renderAll changes).grows

end KeywordTable
