import KeywordTable.Proofs.Conversation
import KeywordTable.Proofs.Paging.Counting
import KeywordTable.Table

/-!
# What is compiled is what is sent

The compilers write expressions out at once.  A table draws the key from the arguments,
keeps trees in a request, and writes them out when the request is sent.  Both come to the
same text, the same tokens and the same faults.

For an update this is so wherever the key attributes stand among the changes.  The
arguments then `Interleave` key fields and changes, so do their values
(`values_of_interleaves`), and the schema takes these apart again (`Interleaves.filter_eq`).
The main result is `Table.sends_compiled`.
-/

namespace KeywordTable

variable {σ α β : Type}

/-! ### Arguments among others -/

/-- The third list consists of the other two, each in its order. -/
inductive Interleaves : List α → List α → List α → Prop
  | nil : Interleaves [] [] []
  | left {xs ys zs : List α} (x : α) (h : Interleaves xs ys zs) : Interleaves (x :: xs) ys (x :: zs)
  | right {xs ys zs : List α} (y : α) (h : Interleaves xs ys zs) :
      Interleaves xs (y :: ys) (y :: zs)

/-- What tells the two lists apart gets them back. -/
theorem Interleaves.filter_eq {xs ys zs : List α} {p : α → Bool} (h : Interleaves xs ys zs)
    (hxs : ∀ x ∈ xs, p x = true) (hys : ∀ y ∈ ys, p y = false) :
    zs.filter p = xs ∧ zs.filter (fun z => !p z) = ys := by
  induction h with
  | nil => exact ⟨rfl, rfl⟩
  | left x h ih =>
      obtain ⟨hleft, hright⟩ := ih (fun x hx => hxs x (List.mem_cons_of_mem _ hx)) hys
      have hx := hxs x List.mem_cons_self
      simp [hx, hleft, hright]
  | right y h ih =>
      obtain ⟨hleft, hright⟩ := ih hxs (fun y hy => hys y (List.mem_cons_of_mem _ hy))
      have hy := hys y List.mem_cons_self
      simp [hy, hleft, hright]

namespace Arguments

/-- The first value is computed before the others. -/
theorem values_cons (name : String) (plain : Plain) (rest : Arguments) :
    Arguments.values ((name, plain) :: rest) = (do
      let value ← plain.toValue
      let values ← rest.values
      return (name, value) :: values) := by
  rw [values, Plain.fieldsToValues]
  rfl

/-- Values in front of others. -/
theorem values_cons_eq_ok {name : String} {plain : Plain} {rest : Arguments}
    {values : Fields Value} :
    Arguments.values ((name, plain) :: rest) = .ok values ↔
      ∃ value others, plain.toValue = .ok value ∧ rest.values = .ok others ∧
        values = (name, value) :: others := by
  rw [values_cons]
  exact map₂_eq_ok_iff

/-- Values stand under the names of their arguments. -/
theorem names_of_values {arguments : Arguments} {values : Fields Value}
    (h : arguments.values = .ok values) : Fields.names values = Fields.names arguments := by
  induction arguments generalizing values with
  | nil =>
      cases h
      rfl
  | cons argument rest ih =>
      obtain ⟨name, plain⟩ := argument
      obtain ⟨value, others, _, hothers, rfl⟩ := values_cons_eq_ok.mp h
      have hnames := ih hothers
      simp only [Fields.names, List.map_cons] at hnames ⊢
      rw [hnames]

/-- **The values of interleaved arguments** are interleaved, and a value without a form is
the fault wherever it stands. -/
theorem values_of_interleaves {first second arguments : Arguments} {firsts : Fields Value}
    (hinterleaves : Interleaves first second arguments) (hfirst : first.values = .ok firsts) :
    match second.values with
    | .ok seconds => ∃ values, arguments.values = .ok values ∧ Interleaves firsts seconds values
    | .error fault => arguments.values = .error fault := by
  induction hinterleaves generalizing firsts with
  | nil =>
      cases hfirst
      exact ⟨[], rfl, .nil⟩
  | @left first second arguments argument hinterleaves ih =>
      obtain ⟨name, plain⟩ := argument
      obtain ⟨value, others, hvalue, hothers, rfl⟩ := values_cons_eq_ok.mp hfirst
      have hrest := ih hothers
      cases hsecond : Arguments.values second with
      | ok seconds =>
          simp only [hsecond] at hrest ⊢
          obtain ⟨values, hvalues, hmore⟩ := hrest
          exact ⟨_, values_cons_eq_ok.mpr ⟨value, values, hvalue, hvalues, rfl⟩, .left _ hmore⟩
      | error fault =>
          simp only [hsecond] at hrest ⊢
          rw [values_cons, hvalue, hrest]
          rfl
  | @right first second arguments argument hinterleaves ih =>
      obtain ⟨name, plain⟩ := argument
      have hrest := ih hfirst
      cases hvalue : plain.toValue with
      | error fault =>
          simp only [values_cons, hvalue]
          rfl
      | ok value =>
          cases hsecond : Arguments.values second with
          | ok seconds =>
              simp only [hsecond] at hrest
              obtain ⟨values, hvalues, hmore⟩ := hrest
              simp only [values_cons, hvalue, hsecond]
              exact ⟨_, by rw [hvalues]; rfl, .right _ hmore⟩
          | error fault =>
              simp only [hsecond] at hrest
              simp only [values_cons, hvalue, hsecond, hrest]
              rfl

end Arguments

/-! ### What is sent for it -/

/-- The call that carries a compiled update. -/
def CompiledUpdate.toCall (compiled : CompiledUpdate) (table : String) (key : Item) : Call :=
  .updateItem key compiled.expression
    { table
      condition := compiled.conditionExpression
      names := compiled.placeholders.nameMap?
      values := compiled.placeholders.valueMap?
      returnValues := some "UPDATED_NEW" }

namespace CompiledCondition

/-- The call that deletes an item under a compiled condition. -/
def toDelete (compiled : CompiledCondition) (table : String) (key : Item) : Call :=
  .deleteItem key
    { table
      condition := compiled.expression
      names := compiled.placeholders.nameMap?
      values := compiled.placeholders.valueMap? }

/-- The call for the first page of a scan that is filtered by a compiled condition. -/
def toScan (compiled : CompiledCondition) (table : String) (select : Option String) : Call :=
  .scan
    { table
      names := compiled.placeholders.nameMap?
      values := compiled.placeholders.valueMap?
      filter := compiled.expression
      select }

end CompiledCondition

/-- The program sends the call for what was compiled and nothing else.  If nothing was
compiled, it reports the same fault and sends nothing. -/
def SendsCompiled (compiled : Except Fault β) (call : β → Call) (program : Program α) : Prop :=
  ∀ (τ : Type) (store : Store τ) (state : τ),
    match compiled with
    | .ok result =>
      ∃ exchange outcome later, exchange.call = call result ∧
        Makes program store state [exchange] outcome later
    | .error fault => Makes program store state [] (.error fault) state

namespace Reader

/-- Counting first makes this call, whatever a store answers. -/
def FirstCounts (reader : Reader) (call : Call) : Prop :=
  ∀ (τ : Type) (store : Store τ) (state : τ) (pages : Nat),
    ∃ exchange rest outcome later, exchange.call = call ∧
      (reader.count store.logging (pages + 1)).attempt (state, []) =
        (outcome, later, exchange :: rest)

/-- A reader that has read nothing first asks for the count of its first page. -/
theorem Fresh.firstCounts {reader : Reader} (hfresh : reader.Fresh)
    (hconflict : ¬ reader.HasConflict) : reader.FirstCounts reader.counting.request.toCall := by
  intro τ store state pages
  obtain ⟨exchanges, outcome, later, hlog, -, hcounts⟩ :=
    count_logging hfresh hconflict store (pages + 1) state
  have hfirst := (fresh_counting hfresh).pageRequest_fixed
  cases hcounts with
  | failed fault | last page hlast | further page hmore hrest =>
      refine ⟨_, _, _, later, ?_, hlog⟩
      rw [PageRequest.call_exchange, hfirst]

end Reader

/-! ### The key among the arguments -/

namespace Table

variable {table : Table} {keyFields update arguments conditions : Arguments} {key : Item}

/-- A key that is drawn from fields of its own is what the schema finds among others. -/
theorem split_of_key {keys rest all : Fields Value} {schema : KeySchema}
    (hkey : schema.keyFrom keys = .ok key) (hrest : ∀ field ∈ rest, schema.isKey field.1 = false)
    (hinterleaves : Interleaves keys rest all) : schema.split all = .ok (key, rest) := by
  unfold KeySchema.keyFrom at hkey
  split at hkey
  · cases hkey
  · next hnone =>
      have hkeys : ∀ field ∈ keys, schema.isKey field.1 = true := by
        simpa using hnone
      obtain ⟨hleft, hright⟩ := hinterleaves.filter_eq hkeys hrest
      rw [KeySchema.split, hleft, hkey]
      simp only [hright]
      rfl

/-- The key of a call comes from the values of its key fields. -/
theorem key_eq_ok (h : table.key keyFields = .ok key) :
    ∃ keys, keyFields.values = .ok keys ∧ table.schema.keyFrom keys = .ok key :=
  bind_eq_ok_iff.mp h

/-- The request for what was compiled. -/
def requestFor (table : Table) (key : Item) (compiled : CompiledUpdate) : UpdateItem where
  key
  changes := compiled.changes
  write :=
    { table := table.name
      condition := compiled.condition
      returnValues := some "UPDATED_NEW" }

/-- **Where the key attributes stand makes no difference** to an update. -/
theorem updateRequest_eq (hkey : table.key keyFields = .ok key)
    (hupdate : ∀ field ∈ update, table.schema.isKey field.1 = false)
    (hinterleaves : Interleaves keyFields update arguments) :
    table.updateRequest arguments conditions =
      (update.compileUpdate conditions).map (table.requestFor key) := by
  obtain ⟨keys, hkeys, hfrom⟩ := key_eq_ok hkey
  have hall := Arguments.values_of_interleaves hinterleaves hkeys
  unfold updateRequest Arguments.compileUpdate Arguments.changes
  cases hvalues : update.values with
  | error fault =>
      simp only [hvalues] at hall
      simp only [hall]
      rfl
  | ok values =>
      simp only [hvalues] at hall
      obtain ⟨all, hall, hmore⟩ := hall
      have hrest : ∀ field ∈ values, table.schema.isKey field.1 = false := by
        intro field hmem
        have hname : field.1 ∈ Fields.names update :=
          Arguments.names_of_values hvalues ▸ List.mem_map_of_mem hmem
        obtain ⟨argument, hargument, heq⟩ := List.mem_map.mp hname
        rw [← heq]
        exact hupdate argument hargument
      have hsplit := split_of_key hfrom hrest hmore
      simp only [hall, hsplit, bind, Except.bind]
      cases Change.ofArguments values with
      | error fault => rfl
      | ok changes => cases conditions.conditions <;> rfl

/-- A request for compiled changes sends the texts and the maps that were compiled. -/
theorem toCall_requestFor {compiled : CompiledUpdate}
    (h : update.compileUpdate conditions = .ok compiled) :
    (table.requestFor key compiled).toCall = compiled.toCall table.name key := by
  unfold Arguments.compileUpdate at h
  cases hchanges : update.changes with
  | error fault =>
      rw [hchanges] at h
      cases h
  | ok changes =>
      cases hconditions : conditions.conditions with
      | error fault =>
          rw [hchanges, hconditions] at h
          cases h
      | ok conditions =>
          rw [hchanges, hconditions] at h
          cases h
          rfl

/-- However the key fields are mixed with the changes, an update sends what its changes compile
to. -/
theorem update_sendsCompiled (hkey : table.key keyFields = .ok key)
    (hupdate : ∀ field ∈ update, table.schema.isKey field.1 = false)
    (hinterleaves : Interleaves keyFields update arguments) :
    SendsCompiled (update.compileUpdate conditions) (fun compiled => compiled.toCall table.name key)
      (fun _ store => table.update store arguments conditions) := by
  intro τ store state
  have hrequest : table.updateRequest arguments conditions =
      (update.compileUpdate conditions).map (table.requestFor key) :=
    updateRequest_eq hkey hupdate hinterleaves
  cases hcompiled : update.compileUpdate conditions with
  | error fault =>
      rw [hcompiled] at hrequest
      exact makes_of_refused hrequest _ state
  | ok compiled =>
      rw [hcompiled] at hrequest
      rcases hanswer : (store.answer (table.requestFor key compiled).toCall).attempt state
        with ⟨answer, later⟩
      exact ⟨_, _, later, toCall_requestFor hcompiled,
        .of_accepted hrequest ((makes_answer hanswer).andThen (table.itemFound true))⟩

/-- Compiling conditions fails only as reading them does. -/
theorem compileCondition_eq (conditions : Arguments) :
    conditions.compileCondition = conditions.conditions.map CompiledCondition.ofConditions := by
  unfold Arguments.compileCondition
  cases conditions.conditions <;> rfl

/-- A delete sends what its conditions compile to. -/
theorem delete_sendsCompiled (hkey : table.key keyFields = .ok key) :
    SendsCompiled conditions.compileCondition (fun compiled => compiled.toDelete table.name key)
      (fun _ store => table.delete store keyFields conditions) := by
  intro τ store state
  rw [compileCondition_eq]
  cases hconditions : conditions.conditions with
  | error fault =>
      have hrequest : table.deleteRequest keyFields conditions = .error fault := by
        rw [deleteRequest, hkey, hconditions]
        rfl
      exact makes_of_refused hrequest _ state
  | ok parsed =>
      have hrequest : table.deleteRequest keyFields conditions =
          .ok ⟨key, { table := table.name, condition := Condition.allOf parsed }⟩ := by
        rw [deleteRequest, hkey, hconditions]
        rfl
      rcases hanswer : (store.answer ((CompiledCondition.ofConditions parsed).toDelete table.name
        key)).attempt state with ⟨answer, later⟩
      exact ⟨_, _, later, rfl, Makes.of_accepted hrequest (makes_answer hanswer)⟩

/-- What a scan is made of. -/
theorem scan_compiled (table : Table) (conditions : Arguments) :
    match conditions.compileCondition with
    | .ok compiled =>
      ∃ reader, table.scan conditions = .ok reader ∧
        reader.FirstMakes (compiled.toScan table.name none) ∧
        reader.FirstCounts (compiled.toScan table.name (some "COUNT"))
    | .error fault => table.scan conditions = .error fault := by
  rw [compileCondition_eq]
  cases hconditions : conditions.conditions with
  | error fault =>
      show table.source.scan conditions = _
      rw [ReadSource.scan, hconditions]
      rfl
  | ok parsed =>
      let read : PageRead := { table := table.name, condition := Condition.allOf parsed }
      have hscan : table.scan conditions =
          .ok (.ofRequest ⟨.scan, read⟩ table.validator false) := by
        show table.source.scan conditions = _
        rw [ReadSource.scan, hconditions]
        rfl
      have hfresh := (Reader.Configured.ofRequest ⟨.scan, read⟩ table.validator false).fresh
      exact ⟨_, hscan, hfresh.firstMakes (Reader.not_hasConflict_of_unlimited rfl),
        hfresh.firstCounts (Reader.not_hasConflict_of_unlimited rfl)⟩

/-- **What the compilers show is what a table sends**: for an update, for a deletion, and
for the first page of a scan, whether its items are asked for or counted. -/
theorem sends_compiled (table : Table) :
    (∀ keyFields update arguments conditions key, table.key keyFields = .ok key →
      (∀ field ∈ update, table.schema.isKey field.1 = false) →
      Interleaves keyFields update arguments →
      SendsCompiled (Arguments.compileUpdate update conditions)
        (fun compiled => compiled.toCall table.name key)
        (fun _ store => table.update store arguments conditions)) ∧
    (∀ keyFields conditions key, table.key keyFields = .ok key →
      SendsCompiled (Arguments.compileCondition conditions)
        (fun compiled => compiled.toDelete table.name key)
        (fun _ store => table.delete store keyFields conditions)) ∧
    ∀ conditions,
      match Arguments.compileCondition conditions with
      | .ok compiled =>
        ∃ reader, table.scan conditions = .ok reader ∧
          reader.FirstMakes (compiled.toScan table.name none) ∧
          reader.FirstCounts (compiled.toScan table.name (some "COUNT"))
      | .error fault => table.scan conditions = .error fault :=
  ⟨fun _ _ _ _ _ => update_sendsCompiled, fun _ _ _ => delete_sendsCompiled,
    table.scan_compiled⟩

/-- A table whose keys consist of an account and a day. -/
def visits : Table where
  declaration := { name := "visits", schema := { hashKey := "account", rangeKey := some "day" } }

/-- What changes with a visit. -/
def visit : Arguments := [("logins__plus", .integer 1), ("address", .text "b")]

/-- The same with the key attributes among the changes. -/
def visitWithKey : Arguments :=
  [("logins__plus", .integer 1), ("account", .text "a"), ("address", .text "b"),
    ("day", .integer 2)]

/-- A visit is changed at its third version, with the two key attributes mixed into the changes. -/
theorem sends_compiled_visit :
    (Arguments.compileUpdate visit [("version", .integer 3)]).toOption.isSome = true ∧
      SendsCompiled (Arguments.compileUpdate visit [("version", .integer 3)])
        (fun compiled =>
          compiled.toCall "visits" [("account", .text "a"), ("day", .number "2")])
        (fun _ store => visits.update store visitWithKey [("version", .integer 3)]) := by
  have hkey : visits.key [("account", .text "a"), ("day", .integer 2)] =
      .ok [("account", .text "a"), ("day", .number "2")] := rfl
  refine ⟨rfl, (sends_compiled visits).1 _ _ _ _ _ hkey (by decide) ?_⟩
  exact .right _ (.left _ (.right _ (.left _ .nil)))

end Table

end KeywordTable
