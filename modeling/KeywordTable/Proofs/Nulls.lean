import KeywordTable.Proofs.Batches
import KeywordTable.Proofs.Compiling

/-!
# What becomes of nulls

A null attribute is not stored, neither at the top of an item nor in a map inside it.
`Value.follow` leads from a value through maps to the one at the end of a path, and
`Value.follow_withoutNulls` says where the stripped value leads: exactly where the original
one does without meeting a null, to what is found there in its stripped form.  The proof
goes along the path, one map at a time; a map names nothing twice (`Value.IsCanonical`), so
the first field of a name is the one that counts before and after.

A plain value is stored as the same item by each of the three ways of writing it
(`Table.PutsAlike`), although one of them strips its items before it makes a batch of them
and the others strip theirs when the request is sent.
-/

namespace KeywordTable

/-! ### Canonical values -/

namespace Value

mutual

/-- Every map inside is in canonical form. -/
def IsCanonical : Value → Prop
  | .list elements => ElementsCanonical elements
  | .map fields => Fields.Sorted fields ∧ FieldsCanonical fields
  | _ => True

/-- Every map inside these values is in canonical form. -/
def ElementsCanonical : List Value → Prop
  | [] => True
  | value :: rest => value.IsCanonical ∧ ElementsCanonical rest

/-- Every map inside these named values is in canonical form. -/
def FieldsCanonical : List (String × Value) → Prop
  | [] => True
  | (_, value) :: rest => value.IsCanonical ∧ FieldsCanonical rest

end

/-- Fields are canonical if each of their values is. -/
theorem fieldsCanonical_iff {fields : Fields Value} :
    FieldsCanonical fields ↔ ∀ field ∈ fields, field.2.IsCanonical := by
  induction fields with
  | nil => simp [FieldsCanonical]
  | cons field rest ih => simp [FieldsCanonical, ih]

/-- A value under a name stands among the fields. -/
theorem mem_of_lookup {fields : Fields Value} {name : String} {value : Value}
    (h : fields.lookup name = some value) : (name, value) ∈ fields := by
  induction fields with
  | nil => cases h
  | cons field rest ih =>
      obtain ⟨n, v⟩ := field
      by_cases hname : name = n
      · subst hname
        rw [List.lookup_cons_self] at h
        cases h
        exact List.mem_cons_self
      · rw [List.lookup_cons, beq_false_of_ne hname] at h
        exact List.mem_cons_of_mem _ (ih h)

/-- A value that is found in a canonical map is canonical. -/
theorem IsCanonical.lookup {fields : Fields Value} {name : String} {value : Value}
    (h : (Value.map fields).IsCanonical) (hvalue : fields.lookup name = some value) :
    value.IsCanonical :=
  fieldsCanonical_iff.mp h.2 _ (mem_of_lookup hvalue)

end Value

/-- The item is a map in canonical form, inside and out. -/
def Item.IsCanonical (item : Item) : Prop := (Value.map item).IsCanonical

namespace Plain

/-- A set is canonical, since it holds no maps. -/
theorem isCanonical_setOf {kind : SetKind} {elements value : Value}
    (h : setOf kind elements = .ok value) : value.IsCanonical := by
  unfold setOf at h
  split at h
  · split at h
    all_goals
      obtain ⟨members, _, hpure⟩ := bind_eq_ok_iff.mp h
      cases hpure
      trivial
  · cases h

mutual

/-- **Values are canonical** when they come of plain ones. -/
theorem isCanonical_toValue : (plain : Plain) → {value : Value} → plain.toValue = .ok value →
    value.IsCanonical
  | .null, _, h | .bool _, _, h | .integer _, _, h | .real _, _, h | .text _, _, h
  | .bytes _, _, h => by
      rw [toValue] at h
      cases h
      trivial
  | .list elements, _, h => by
      rw [toValue] at h
      obtain ⟨values, hvalues, hpure⟩ := bind_eq_ok_iff.mp h
      cases hpure
      exact elementsCanonical_elementsToValues elements hvalues
  | .fields members, _, h => by
      rw [toValue] at h
      obtain ⟨fields, hfields, hpure⟩ := bind_eq_ok_iff.mp h
      cases hpure
      have hcanonical := Value.fieldsCanonical_iff.mp
        (fieldsCanonical_fieldsToValues members hfields)
      exact ⟨Fields.sorted_canonical fields, Value.fieldsCanonical_iff.mpr fun field hmem =>
        hcanonical field (Fields.mem_of_mem_canonical hmem)⟩
  | .set kind elements, _, h => by
      rw [toValue] at h
      obtain ⟨_, _, hset⟩ := bind_eq_ok_iff.mp h
      exact isCanonical_setOf hset
  | .failing reason, _, h => by
      rw [toValue] at h
      cases h

/-- A list of plain values becomes a list of canonical values. -/
theorem elementsCanonical_elementsToValues : (elements : List Plain) → {values : List Value} →
    elementsToValues elements = .ok values → Value.ElementsCanonical values
  | [], _, h => by
      rw [elementsToValues] at h
      cases h
      trivial
  | plain :: rest, _, h => by
      rw [elementsToValues] at h
      obtain ⟨value, values, hvalue, hvalues, rfl⟩ := map₂_eq_ok_iff.mp h
      exact ⟨isCanonical_toValue plain hvalue, elementsCanonical_elementsToValues rest hvalues⟩

/-- So do named plain values. -/
theorem fieldsCanonical_fieldsToValues : (members : List (String × Plain)) →
    {fields : List (String × Value)} → fieldsToValues members = .ok fields →
    Value.FieldsCanonical fields
  | [], _, h => by
      rw [fieldsToValues] at h
      cases h
      trivial
  | (name, plain) :: rest, _, h => by
      rw [fieldsToValues] at h
      obtain ⟨value, fields, hvalue, hfields, rfl⟩ := map₂_eq_ok_iff.mp h
      exact ⟨isCanonical_toValue plain hvalue, fieldsCanonical_fieldsToValues rest hfields⟩

end

/-- The item of a plain value is canonical. -/
theorem isCanonical_toItem {plain : Plain} {item : Item} (h : plain.toItem = .ok item) :
    item.IsCanonical := by
  obtain ⟨value, hvalue, hrest⟩ := bind_eq_ok_iff.mp h
  cases value with
  | map fields =>
      cases hrest
      exact isCanonical_toValue plain hvalue
  | _ => cases hrest

end Plain

/-! ### Where paths lead -/

namespace Value

/-- The value at the end of a path through maps. -/
def follow : Value → List String → Option Value
  | value, [] => some value
  | .map fields, name :: names => (fields.lookup name).bind fun value => value.follow names
  | _, _ :: _ => none

/-- There is a null on the way, the end of it included. -/
def MeetsNull (value : Value) (path : List String) : Prop :=
  ∃ passed, passed ≠ [] ∧ passed <+: path ∧
    ∃ found, value.follow passed = some found ∧ found.isNull = true

/-- Where there is no path to follow, there is no null on it. -/
theorem not_meetsNull_nil (value : Value) : ¬ value.MeetsNull [] := by
  rintro ⟨passed, hne, hpassed, _⟩
  exact hne (List.prefix_nil.mp hpassed)

/-- A null is met at the first step or on the way from there. -/
theorem meetsNull_cons_iff {fields : Fields Value} {name : String} {names : List String} :
    (Value.map fields).MeetsNull (name :: names) ↔
      ∃ value, fields.lookup name = some value ∧
        (value.isNull = true ∨ value.MeetsNull names) := by
  constructor
  · rintro ⟨passed, hne, hpassed, found, hfound, hnull⟩
    obtain _ | ⟨first, passed⟩ := passed
    · exact absurd rfl hne
    · obtain ⟨rfl, hrest⟩ := List.cons_prefix_cons.mp hpassed
      obtain ⟨value, hvalue, hmore⟩ := Option.bind_eq_some_iff.mp hfound
      refine ⟨value, hvalue, ?_⟩
      by_cases hlast : passed = []
      · subst hlast
        cases hmore
        exact .inl hnull
      · exact .inr ⟨passed, hlast, hrest, found, hmore, hnull⟩
  · rintro ⟨value, hvalue, hnull | ⟨passed, _, hpassed, found, hfound, hnull⟩⟩
    · refine ⟨[name], List.cons_ne_nil _ _, ?_, value, ?_, hnull⟩
      · exact List.cons_prefix_cons.mpr ⟨rfl, List.nil_prefix⟩
      · rw [follow, hvalue]
        rfl
    · refine ⟨name :: passed, List.cons_ne_nil _ _, ?_, found, ?_, hnull⟩
      · exact List.cons_prefix_cons.mpr ⟨rfl, hpassed⟩
      · rw [follow, hvalue]
        exact hfound

/-! ### Stripping -/

/-- Only maps are changed; lists and sets keep whatever they hold. -/
theorem withoutNulls_eq_self {value : Value} (h : ∀ fields, value ≠ .map fields) :
    value.withoutNulls = value := by
  cases value with
  | map fields => exact absurd rfl (h fields)
  | _ => simp [withoutNulls]

/-- Without nulls, fields lose those that are null, and the others lose the nulls inside of
them. -/
theorem fieldsWithoutNulls_eq (fields : Fields Value) :
    fieldsWithoutNulls fields =
      (fields.filter fun field => !field.2.isNull).map fun field =>
        (field.1, field.2.withoutNulls) := by
  induction fields with
  | nil => rfl
  | cons field rest ih =>
      obtain ⟨name, value⟩ := field
      cases hnull : value.isNull <;> simp [fieldsWithoutNulls, hnull, ih]

/-- Fields that are sorted stay sorted. -/
theorem sorted_fieldsWithoutNulls {fields : Fields Value} (h : Fields.Sorted fields) :
    Fields.Sorted (fieldsWithoutNulls fields) := by
  rw [fieldsWithoutNulls_eq, Fields.Sorted, List.pairwise_map]
  exact List.Pairwise.filter _ h

/-- **Under one name** stands what stood there, unless it was null. -/
theorem lookup_fieldsWithoutNulls {fields : Fields Value} (h : (Fields.names fields).Nodup)
    (name : String) :
    (fieldsWithoutNulls fields).lookup name =
      (fields.lookup name).bind fun value =>
        if value.isNull then none else some value.withoutNulls := by
  induction fields with
  | nil => rfl
  | cons field rest ih =>
      obtain ⟨n, value⟩ := field
      obtain ⟨hnew, hrest⟩ := List.nodup_cons.mp h
      by_cases hname : name = n
      · subst hname
        have hnone : rest.lookup name = none := by
          rw [← Option.not_isSome_iff_eq_none]
          exact fun hsome => hnew (Fields.has_iff.mp hsome)
        cases hnull : value.isNull with
        | false => simp [fieldsWithoutNulls, hnull]
        | true => simp [fieldsWithoutNulls, hnull, ih hrest, hnone]
      · have hbeq : (name == n) = false := beq_false_of_ne hname
        cases hnull : value.isNull <;>
          simp [fieldsWithoutNulls, hnull, List.lookup_cons, hbeq, ih hrest]

/-- **A path through the stripped value** leads where it led without meeting a null. -/
theorem follow_withoutNulls {value found : Value} {path : List String} (h : value.IsCanonical) :
    value.withoutNulls.follow path = some found ↔
      ∃ original, value.follow path = some original ∧ ¬ value.MeetsNull path ∧
        original.withoutNulls = found := by
  induction path generalizing value with
  | nil => simp [follow, not_meetsNull_nil]
  | cons name names ih =>
      cases value with
      | map fields =>
          rw [withoutNulls, follow, lookup_fieldsWithoutNulls h.1.nodup_names,
            meetsNull_cons_iff, follow]
          cases hvalue : fields.lookup name with
          | none => simp
          | some value =>
              cases hnull : value.isNull with
              | true => simp [hnull]
              | false => simpa [hnull] using ih (h.lookup hvalue)
      | _ => simp [withoutNulls, follow]

/-- A value stays what it is, null or not, when it loses the nulls inside of it. -/
theorem isNull_withoutNulls (value : Value) : value.withoutNulls.isNull = value.isNull := by
  cases value <;> simp [withoutNulls, isNull]

mutual

/-- A value that was stripped has nothing more to lose. -/
theorem withoutNulls_withoutNulls : (value : Value) →
    value.withoutNulls.withoutNulls = value.withoutNulls
  | .map fields => by
      rw [withoutNulls, withoutNulls, fieldsWithoutNulls_fieldsWithoutNulls fields]
  | .text _ | .number _ | .bytes _ | .bool _ | .null _ | .textSet _ | .numberSet _
  | .bytesSet _ | .list _ | .unknown => by simp [withoutNulls]

/-- Fields that have lost their nulls have none to lose. -/
theorem fieldsWithoutNulls_fieldsWithoutNulls : (fields : List (String × Value)) →
    fieldsWithoutNulls (fieldsWithoutNulls fields) = fieldsWithoutNulls fields
  | [] => rfl
  | (name, value) :: rest => by
      have hvalue := withoutNulls_withoutNulls value
      have hrest := fieldsWithoutNulls_fieldsWithoutNulls rest
      cases hnull : value.isNull with
      | true => simp [fieldsWithoutNulls, hnull, hrest]
      | false => simp [fieldsWithoutNulls, hnull, isNull_withoutNulls, hvalue, hrest]

end

mutual

/-- Stripping keeps values canonical. -/
theorem isCanonical_withoutNulls : (value : Value) → value.IsCanonical →
    value.withoutNulls.IsCanonical
  | .map fields, h => by
      rw [withoutNulls]
      exact ⟨sorted_fieldsWithoutNulls h.1, fieldsCanonical_withoutNulls fields h.2⟩
  | .text _, h | .number _, h | .bytes _, h | .bool _, h | .null _, h | .textSet _, h
  | .numberSet _, h | .bytesSet _, h | .list _, h | .unknown, h => by
      simpa [withoutNulls] using h

/-- Canonical fields stay canonical. -/
theorem fieldsCanonical_withoutNulls : (fields : List (String × Value)) →
    FieldsCanonical fields → FieldsCanonical (fieldsWithoutNulls fields)
  | [], _ => trivial
  | (name, value) :: rest, h => by
      have hrest := fieldsCanonical_withoutNulls rest h.2
      rw [fieldsWithoutNulls]
      split
      · exact hrest
      · exact ⟨isCanonical_withoutNulls value h.1, hrest⟩

end

end Value

/-- What is stored of an item. -/
structure StripsNulls (item : Item) : Prop where
  /-- A path of the stored item leads somewhere exactly if it did so without meeting a null. -/
  leads_iff : ∀ path, path ≠ [] →
    ((∃ found, (Value.map item.withoutNulls).follow path = some found) ↔
      (∃ original, (Value.map item).follow path = some original) ∧
        ∀ passed, passed ≠ [] → passed <+: path →
          ∀ value, (Value.map item).follow passed = some value → value.isNull = false)
  /-- What is found there is the original value, or a map if that is one. -/
  verbatim : ∀ path original found, (Value.map item).follow path = some original →
    (Value.map item.withoutNulls).follow path = some found →
      ((∀ fields, original ≠ .map fields) → found = original) ∧
        ∀ fields, original = .map fields → ∃ kept, found = .map kept
  /-- The stored item has nothing more to lose. -/
  twice : item.withoutNulls.withoutNulls = item.withoutNulls
  /-- It is in canonical form as well. -/
  canonical : item.withoutNulls.IsCanonical

/-- **What an item keeps without its nulls**, and where it keeps it. -/
theorem Item.IsCanonical.stripsNulls {item : Item} (h : item.IsCanonical) : StripsNulls item where
  leads_iff path hpath := by
    have hfollow (found : Value) :
        (Value.map item).withoutNulls.follow path = some found ↔
          ∃ original, (Value.map item).follow path = some original ∧
            ¬ (Value.map item).MeetsNull path ∧ original.withoutNulls = found :=
      Value.follow_withoutNulls h
    rw [Value.withoutNulls] at hfollow
    have hnulls : ¬ (Value.map item).MeetsNull path ↔
        ∀ passed, passed ≠ [] → passed <+: path →
          ∀ value, (Value.map item).follow passed = some value → value.isNull = false := by
      simp [Value.MeetsNull]
    rw [← hnulls]
    constructor
    · rintro ⟨found, hfound⟩
      obtain ⟨original, horiginal, hmeets, _⟩ := (hfollow found).mp hfound
      exact ⟨⟨original, horiginal⟩, hmeets⟩
    · rintro ⟨⟨original, horiginal⟩, hmeets⟩
      exact ⟨_, (hfollow _).mpr ⟨original, horiginal, hmeets, rfl⟩⟩
  verbatim path original found horiginal hfound := by
    have hstripped : (Value.map item).withoutNulls.follow path = some found := by
      rw [Value.withoutNulls]
      exact hfound
    obtain ⟨reached, hreached, _, rfl⟩ := (Value.follow_withoutNulls h).mp hstripped
    rw [horiginal] at hreached
    cases hreached
    refine ⟨Value.withoutNulls_eq_self, ?_⟩
    rintro fields rfl
    exact ⟨_, by rw [Value.withoutNulls]⟩
  twice := Value.fieldsWithoutNulls_fieldsWithoutNulls item
  canonical := by
    have hcanonical := Value.isCanonical_withoutNulls (.map item) h
    rw [Value.withoutNulls] at hcanonical
    exact hcanonical

/-! ### What is sent -/

/-- A program sends what was compiled if its request is made of that and stands for one call. -/
theorem SendsCompiled.of_request {α β ρ : Type} {compiled : Except Fault β}
    {request : Except Fault ρ} {call : β → Call} {next : (τ : Type) → Store τ → ρ → Run τ α}
    (prepare : β → ρ) (hrequest : request = compiled.map prepare)
    (hnext : ∀ (result : β) (τ : Type) (store : Store τ) (state : τ),
      ∃ exchange outcome later, exchange.call = call result ∧
        Makes (fun τ store => next τ store (prepare result)) store state [exchange] outcome later) :
    SendsCompiled compiled call (fun τ store => Run.ofExcept request >>= next τ store) := by
  intro τ store state
  cases compiled with
  | error fault => exact makes_of_refused hrequest _ state
  | ok result =>
      obtain ⟨exchange, outcome, later, hcall, hmakes⟩ := hnext result τ store state
      exact ⟨exchange, outcome, later, hcall, .of_accepted hrequest hmakes⟩

namespace Table

variable {table : Table}

/-- What the validator passes of a plain value, with the path of the hash key, which is looked
at first. -/
def uniqueItemToWrite (table : Table) (plain : Plain) : Except Fault (AttributePath × Item) := do
  let path ← AttributePath.ofNames [table.schema.hashKey]
  let item ← table.itemToWrite plain
  return (path, item)

/-- How plain values are stored, one by one and in batches.  In each way an item that the
validator passes is sent without its nulls. -/
structure PutsAlike (table : Table) : Prop where
  put : ∀ plain, SendsCompiled (table.itemToWrite plain)
    (fun item => .putItem item.withoutNulls { table := table.name })
    (fun _ store => table.put store plain)
  putUnique : ∀ plain, SendsCompiled (table.uniqueItemToWrite plain)
    (fun (path, item) => .putItem item.withoutNulls
      (Write.toCall { table := table.name, condition := some (.test path .absent) } {}))
    (fun _ store => table.putUnique store plain)
  /-- A batch is sent in groups, in order, or not at all if one item is refused. -/
  putBatch : ∀ (plains : List Plain) (σ : Type) (store : Store σ) (bound : Nat) (state : σ),
    match plains.mapM table.itemToWrite with
    | .ok items =>
      ∃ rounds remaining fault? outcome later,
        Makes (fun _ store => table.putBatch store bound plains) store state
          (rounds.map (Round.ofWrites table.name)) outcome later ∧
        SendsGroups id
          (groupsOf (maxBatchWrite - 1) (items.map fun item => .put item.withoutNulls)) rounds
          remaining fault?
    | .error fault =>
      Makes (fun _ store => table.putBatch store bound plains) store state [] (.error fault) state

/-- A put sends the item that the validator passed, without its nulls. -/
theorem put_sendsItem (table : Table) (plain : Plain) :
    SendsCompiled (table.itemToWrite plain)
      (fun item => .putItem item.withoutNulls { table := table.name })
      (fun _ store => table.put store plain) := by
  refine SendsCompiled.of_request (fun item => { item, write := { table := table.name } }) ?_ ?_
  · unfold putRequest
    cases table.itemToWrite plain <;> rfl
  · intro item τ store state
    let request : PutItem := { item, write := { table := table.name } }
    rcases hanswer : (store.answer request.toCall).attempt state with ⟨answer, later⟩
    exact ⟨_, answer, later, rfl, makes_answer hanswer⟩

/-- A put of a new item does so too, on the condition that its hash key is absent. -/
theorem putUnique_sendsItem (table : Table) (plain : Plain) :
    SendsCompiled (table.uniqueItemToWrite plain)
      (fun (path, item) => .putItem item.withoutNulls
        (Write.toCall { table := table.name, condition := some (.test path .absent) } {}))
      (fun _ store => table.putUnique store plain) := by
  refine SendsCompiled.of_request (fun (path, item) =>
    { item, write := { table := table.name, condition := some (.test path .absent) } }) ?_ ?_
  · unfold putUniqueRequest uniqueItemToWrite
    cases AttributePath.ofNames [table.schema.hashKey] with
    | error fault => rfl
    | ok path => cases table.itemToWrite plain <;> rfl
  · rintro ⟨path, item⟩ τ store state
    let request : PutItem :=
      { item, write := { table := table.name, condition := some (.test path .absent) } }
    rcases hanswer : (store.answer request.toCall).attempt state with ⟨answer, later⟩
    exact ⟨_, _, later, rfl, (makes_answer hanswer).mapFault asHashKeyExists⟩

/-- A batch is made of the items without their nulls. -/
theorem putBatchRequest_eq (table : Table) (plains : List Plain) :
    table.putBatchRequest plains = (plains.mapM table.itemToWrite).map fun items =>
      { table := table.name, requests := items.map fun item => .put item.withoutNulls } := by
  have hrequests : (plains.mapM fun plain => do
        return WriteRequest.put (← table.itemToWrite plain).withoutNulls) =
      (plains.mapM table.itemToWrite).map fun items =>
        items.map fun item => .put item.withoutNulls := by
    induction plains with
    | nil => rfl
    | cons plain plains ih =>
        rw [List.mapM_cons, List.mapM_cons, ih]
        cases table.itemToWrite plain with
        | error fault => rfl
        | ok item => cases plains.mapM table.itemToWrite <;> rfl
  rw [putBatchRequest, hrequests]
  cases plains.mapM table.itemToWrite <;> rfl

/-- **However an item is put, the same item is sent.** -/
theorem putsAlike (table : Table) : table.PutsAlike where
  put := table.put_sendsItem
  putUnique := table.putUnique_sendsItem
  putBatch plains σ store bound state := by
    have hrequest := table.putBatchRequest_eq plains
    cases hitems : plains.mapM table.itemToWrite with
    | error fault =>
        rw [hitems] at hrequest
        exact makes_of_refused hrequest _ state
    | ok items =>
        rw [hitems] at hrequest
        obtain ⟨rounds, remaining, fault?, later, hmakes, hsends, _⟩ :=
          makes_writeGroups store table.name bound
            (groupsOf (maxBatchWrite - 1) (items.map fun item => .put item.withoutNulls)) state
        exact ⟨rounds, remaining, fault?, _, later, .of_accepted hrequest hmakes, hsends⟩

end Table

/-- **Nulls are not stored**: of a canonical item exactly the nulls that maps lead to are
stripped, and it is stored alike by all three ways of putting it.  Plain values stand for
canonical items. -/
theorem Item.strips_nulls {item : Item} (h : item.IsCanonical) :
    StripsNulls item ∧ (∀ table : Table, table.PutsAlike) ∧
      ∀ (plain : Plain) (found : Item), plain.toItem = .ok found → found.IsCanonical :=
  ⟨h.stripsNulls, Table.putsAlike, fun _ _ => Plain.isCanonical_toItem⟩

/-- An item with nulls of both kinds, in a map and in a list. -/
def Item.withNulls : Item :=
  [("a", .map [("b", .null true), ("c", .map [("d", .null false)])]),
    ("e", .list [.null true, .map [("f", .null true)]]), ("g", .null false)]

/-- A null in a map goes, also inside of another one; in a list it stays. -/
theorem Item.strips_nulls_nested :
    Item.withNulls.IsCanonical ∧ StripsNulls Item.withNulls ∧
      Item.withNulls.withoutNulls =
        [("a", .map [("c", .map [])]), ("e", .list [.null true, .map [("f", .null true)]])] := by
  have hcanonical : Item.withNulls.IsCanonical := by
    simp only [Item.IsCanonical, Item.withNulls, Value.IsCanonical, Value.FieldsCanonical,
      Value.ElementsCanonical, Fields.Sorted]
    decide
  exact ⟨hcanonical, (Item.strips_nulls hcanonical).1, rfl⟩

end KeywordTable
