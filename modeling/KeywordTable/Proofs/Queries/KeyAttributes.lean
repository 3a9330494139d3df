import KeywordTable.Proofs.Queries

/-!
# Which keywords test a key attribute

Key attributes are recognised in two ways.  Keys are drawn from arguments by the keywords as
they stand; a query goes by the paths that the keywords lead to.  The two agree on every name
that a path can hold (`Table.recognises_keys`).  A name that is empty or holds a separator
has no path of its own: a key attribute of that name can be drawn and written, but no keyword
tests it.

Both ways look at one argument at a time.  Nothing counts how often a key attribute is
tested, so a query is accepted with any number of tests of the same one, and its key
condition is one that a store can use exactly when the caller asked for the hash key once and
for the range key at most once (`Table.tests_keys`).
-/

namespace KeywordTable

/-- The path that a keyword of a condition leads to, if there is one. -/
def pathAsked? (keyword : String) : Option AttributePath :=
  (resolve Operator keyword).toOption.map Prod.fst

/-- How many of the arguments test the attribute of this name itself. -/
def Arguments.timesAsked (arguments : Arguments) (name : String) : Nat :=
  arguments.countP fun argument => (pathAsked? argument.1).any fun path => path.names = [name]

/-- Does the keyword test a key attribute itself? -/
def KeySchema.asksKey (schema : KeySchema) (keyword : String) : Bool :=
  (pathAsked? keyword).any schema.isKeyPath

variable {schema : KeySchema} {arguments : Arguments} {leaves : List Leaf}

/-- The keyword of an argument tells the path of its leaf. -/
theorem Asks.pathAsked?_eq {argument : String × Plain} {leaf : Leaf} (h : Asks argument leaf) :
    pathAsked? argument.1 = some leaf.path := by
  rw [pathAsked?, h.resolves]
  rfl

/-! ### How often key attributes are tested -/

/-- What a store asks of the tests in a key condition: one equality on the hash key and no
more than one test of the range key. -/
structure KeySchema.Usable (schema : KeySchema) (leaves : List Leaf) : Prop where
  once : leaves.countP (fun leaf => schema.OnHashKey leaf.path) = 1
  equal : ∀ leaf ∈ leaves, schema.OnHashKey leaf.path → leaf.asked.operator = .compare .equal
  range : leaves.countP (fun leaf => schema.OnRangeKey leaf.path) ≤ 1

/-- Arguments ask for an attribute as often as their leaves test it. -/
theorem timesAsked_eq_countP (h : List.Forall₂ Asks arguments leaves) (name : String) :
    arguments.timesAsked name = leaves.countP fun leaf => leaf.path.names = [name] := by
  rw [Arguments.timesAsked, List.countP_eq_length_filter, List.countP_eq_length_filter]
  refine (List.rel_filter ?_ h).length_eq
  intro argument leaf hasks
  show (pathAsked? argument.1).any _ = true ↔ _
  rw [hasks.pathAsked?_eq, Option.any_some]

namespace KeySchema

/-- The leaves on key attributes are all the leaves on one of them. -/
theorem countP_keyLeaves {p : Leaf → Bool}
    (h : ∀ leaf, p leaf = true → schema.OnKey leaf.path) :
    (schema.keyLeaves leaves).countP p = leaves.countP p := by
  rw [keyLeaves, List.countP_filter]
  refine List.countP_congr fun leaf _ => ?_
  rw [Bool.and_eq_true, decide_eq_true_iff]
  exact ⟨And.left, fun hp => ⟨hp, h leaf hp⟩⟩

/-- The range key is tested at most once if no leaf but one is on the attribute of this name. -/
theorem countP_onRangeKey_le_one_iff :
    leaves.countP (fun leaf => schema.OnRangeKey leaf.path) ≤ 1 ↔
      ∀ name ∈ schema.rangeKey, leaves.countP (fun leaf => leaf.path.names = [name]) ≤ 1 := by
  cases hrange : schema.rangeKey with
  | none => simp [OnRangeKey, hrange]
  | some name => simp [OnRangeKey, hrange]

/-- **A key condition is usable** exactly when the arguments ask once for the hash key and at
most once for the range key. -/
theorem usable_iff (hasks : List.Forall₂ Asks arguments leaves) (hadmits : schema.Admits leaves) :
    schema.Usable (schema.keyLeaves leaves) ↔
      arguments.timesAsked schema.hashKey = 1 ∧
        ∀ name ∈ schema.rangeKey, arguments.timesAsked name ≤ 1 := by
  have hhash : (schema.keyLeaves leaves).countP (fun leaf => schema.OnHashKey leaf.path) =
      arguments.timesAsked schema.hashKey := by
    rw [countP_keyLeaves fun leaf hleaf => .inl (of_decide_eq_true hleaf),
      timesAsked_eq_countP hasks]
    rfl
  have hrange : (schema.keyLeaves leaves).countP (fun leaf => schema.OnRangeKey leaf.path) ≤ 1 ↔
      ∀ name ∈ schema.rangeKey, arguments.timesAsked name ≤ 1 := by
    rw [countP_keyLeaves fun leaf hleaf => .inr (of_decide_eq_true hleaf),
      countP_onRangeKey_le_one_iff]
    simp only [timesAsked_eq_countP hasks]
  constructor
  · intro husable
    exact ⟨hhash ▸ husable.once, hrange.mp husable.range⟩
  · rintro ⟨honce, hmore⟩
    exact ⟨hhash.trans honce, (admits_keyLeaves.mpr hadmits).hash, hrange.mpr hmore⟩

/-- What a key condition makes of the arguments of a query. -/
structure TestedBy (schema : KeySchema) (arguments : Arguments) (leaves : List Leaf) : Prop where
  onKey : ∀ leaf ∈ leaves, schema.OnKey leaf.path
  tested : ∃ leaf ∈ leaves, schema.OnHashKey leaf.path
  equal : ∀ leaf ∈ leaves, schema.OnHashKey leaf.path → leaf.asked.operator = .compare .equal
  usable : schema.Usable leaves ↔
    arguments.timesAsked schema.hashKey = 1 ∧
      ∀ name ∈ schema.rangeKey, arguments.timesAsked name ≤ 1

/-- How queries test key attributes. -/
structure TestsKeys (schema : KeySchema) (run : Arguments → Except Fault Reader) : Prop where
  /-- The hash key is tested, for equality only; how often is left to the arguments. -/
  tested : ∀ arguments reader, run arguments = .ok reader →
    ∃ condition leaves, reader.request.access = .query condition none ∧
      Joins (some condition) leaves ∧ schema.TestedBy arguments leaves
  /-- One more test of a key attribute is as good as the first. -/
  again : ∀ arguments reader argument leaf, run arguments = .ok reader → Asks argument leaf →
    (schema.OnHashKey leaf.path → leaf.asked.operator = .compare .equal) →
    (schema.OnRangeKey leaf.path → leaf.asked.operator ∈ rangeOperators) →
    ∃ more, run (arguments ++ [argument]) = .ok more

/-- One leaf more on a key attribute is admitted if it would be admitted alone. -/
theorem Admits.append {leaf : Leaf} (h : schema.Admits leaves)
    (hhash : schema.OnHashKey leaf.path → leaf.asked.operator = .compare .equal)
    (hrange : schema.OnRangeKey leaf.path → leaf.asked.operator ∈ rangeOperators) :
    schema.Admits (leaves ++ [leaf]) where
  hash other hother := by
    rcases List.mem_append.mp hother with hother | hother
    · exact h.hash other hother
    · rw [List.mem_singleton.mp hother]
      exact hhash
  range other hother := by
    rcases List.mem_append.mp hother with hother | hother
    · exact h.range other hother
    · rw [List.mem_singleton.mp hother]
      exact hrange
  tested := by
    obtain ⟨other, hother, hon⟩ := h.tested
    exact ⟨other, List.mem_append_left _ hother, hon⟩

end KeySchema

/-- **How a query tests its key attributes**: a store can use it just when its keywords ask once
for the hash key and at most once for the range key, which nothing sees to. -/
theorem ReadSource.testsKeys (source : ReadSource) : source.schema.TestsKeys source.query where
  tested arguments reader hquery := by
    obtain ⟨leaves, condition, hasks, hadmits, hjoins, rfl⟩ := query_eq_ok_iff.mp hquery
    have hkey := KeySchema.admits_keyLeaves.mpr hadmits
    exact ⟨condition, source.schema.keyLeaves leaves, rfl, hjoins,
      fun leaf hleaf => (KeySchema.mem_keyLeaves.mp hleaf).2, hkey.tested, hkey.hash,
      KeySchema.usable_iff hasks hadmits⟩
  again arguments reader argument leaf hquery hasks hhash hrange := by
    have hqueries := fun arguments => (source.queries arguments).accepts
    obtain ⟨leaves, hleaves, hadmits⟩ := (hqueries arguments).mp ⟨reader, hquery⟩
    refine (hqueries _).mpr ⟨leaves ++ [leaf], ?_, hadmits.append hhash hrange⟩
    exact List.rel_append hleaves (.cons hasks .nil)

/-- **Key attributes are tested, but the tests are not counted**, by queries of a table and of
an index. -/
theorem Table.tests_keys (table : Table) :
    table.schema.TestsKeys table.query ∧
      ∀ index : IndexDeclaration, index.schema.TestsKeys (table.queryIndex index) :=
  ⟨table.source.testsKeys, fun index => (table.indexSource index).testsKeys⟩

/-- A lower and an upper bound on the range key, given as two keywords. -/
theorem Table.query_between_bounds :
    ∃ reader condition leaves,
      visits.query [("account", .text "a"), ("day__gte", .integer 2), ("day__lte", .integer 5)] =
        .ok reader ∧
      reader.request.access = .query condition none ∧ Joins (some condition) leaves ∧
      ¬ visits.schema.Usable leaves := by
  let account : AttributePath := ⟨["account"], by decide, by decide⟩
  let day : AttributePath := ⟨["day"], by decide, by decide⟩
  let leaves : List Leaf :=
    [⟨account, .compare .equal (.text "a")⟩, ⟨day, .compare .greaterOrEqual (.number "2")⟩,
      ⟨day, .compare .lessOrEqual (.number "5")⟩]
  refine ⟨_, .all (leaves.map Leaf.condition), leaves, rfl, rfl, .several _ _ _, ?_⟩
  intro husable
  have htwo : leaves.countP (fun leaf => visits.schema.OnRangeKey leaf.path) = 2 := by decide
  have hrange := husable.range
  omega

/-! ### How key attributes are recognised -/

/-- Arguments ask for a key attribute where their leaves test one. -/
theorem Asks.asksKey_iff {argument : String × Plain} {leaf : Leaf} (h : Asks argument leaf) :
    schema.asksKey argument.1 = true ↔ schema.OnKey leaf.path := by
  rw [KeySchema.asksKey, h.pathAsked?_eq, Option.any_some, KeySchema.isKeyPath_iff]

namespace KeySchema

/-- The leaves of the key condition are asked for by the arguments with a key attribute. -/
theorem keyLeaves_asked (h : List.Forall₂ Asks arguments leaves) :
    List.Forall₂ Asks (arguments.filter fun argument => schema.asksKey argument.1)
      (schema.keyLeaves leaves) := by
  refine List.rel_filter ?_ h
  intro argument leaf hasks
  show schema.asksKey argument.1 = true ↔ decide (schema.OnKey leaf.path) = true
  rw [hasks.asksKey_iff, decide_eq_true_iff]

/-- The leaves of the filter are asked for by the others. -/
theorem filterLeaves_asked (h : List.Forall₂ Asks arguments leaves) :
    List.Forall₂ Asks (arguments.filter fun argument => !schema.asksKey argument.1)
      (schema.filterLeaves leaves) := by
  refine List.rel_filter ?_ h
  intro argument leaf hasks
  show (!schema.asksKey argument.1) = true ↔ decide (¬ schema.OnKey leaf.path) = true
  rw [Bool.not_eq_true', ← Bool.not_eq_true, hasks.asksKey_iff, decide_eq_true_iff]

/-- A keyword asks for a key attribute if it resolves to its path. -/
theorem asksKey_of_resolve {keyword : String} {path : AttributePath} {operation : Operator}
    (h : resolve Operator keyword = .ok (path, operation)) :
    schema.asksKey keyword = true ↔ schema.OnKey path := by
  rw [asksKey, pathAsked?, h, ← isKeyPath_iff]
  rfl

/-- **The keywords that test a key attribute** are the names of key attributes that a path can
hold, with a token behind them or without.  Such a path is read from its name and from no other
text. -/
theorem asksKey_iff {keyword : String} :
    schema.asksKey keyword = true ↔
      ∃ name, schema.isKey name = true ∧ LegalName name ∧
        (keyword = name ∨
          ∃ operation : Operator, keyword = name ++ separator ++ Operation.token operation) := by
  constructor
  · intro h
    cases hresolve : resolve Operator keyword with
    | error fault =>
        rw [asksKey, pathAsked?, hresolve] at h
        cases h
    | ok resolved =>
        obtain ⟨path, operation⟩ := resolved
        obtain ⟨name, hkey, hnames⟩ := onKey_iff.mp ((asksKey_of_resolve hresolve).mp h)
        have hlegal : LegalName name := path.legal name (hnames ▸ List.mem_singleton_self name)
        have hjoined : path.joined = name := AttributePath.joined_of_names hnames
        refine ⟨name, hkey, hlegal, ?_⟩
        rcases eq_of_resolve hresolve with ⟨head, rfl, hparse⟩ | ⟨hparse, _⟩
        · refine .inr ⟨operation, ?_⟩
          rw [← hjoined, AttributePath.joined_of_parse hparse]
        · exact .inl (by rw [← hjoined, AttributePath.joined_of_parse hparse])
  · rintro ⟨name, hkey, hlegal, rfl | ⟨operation, rfl⟩⟩
    · obtain ⟨path, hresolve, hnames⟩ := (resolve_name_iff (κ := Operator)).mpr hlegal
      exact (asksKey_of_resolve hresolve).mpr (onKey_iff.mpr ⟨_, hkey, hnames⟩)
    · obtain ⟨path, hparse, hnames⟩ := AttributePath.exists_parse_name hlegal
      have hresolve := (standsFor_token name operation).found path hparse
      exact (asksKey_of_resolve hresolve).mpr (onKey_iff.mpr ⟨name, hkey, hnames⟩)

/-- How queries recognise key attributes. -/
structure RecognisesKeys (schema : KeySchema) (run : Arguments → Except Fault Reader) : Prop where
  /-- The name of a key attribute asks for this attribute, by the operation that needs no
  token, exactly if a path can hold it. -/
  named : ∀ name, schema.isKey name = true →
    ((∃ path, resolve Operator name = .ok (path, Operation.fallback) ∧ path.names = [name]) ↔
      LegalName name)
  /-- It then tests a key attribute, and so does a token behind it, and no other keyword. -/
  spelled : ∀ keyword, schema.asksKey keyword = true ↔
    ∃ name, schema.isKey name = true ∧ LegalName name ∧
      (keyword = name ∨
        ∃ operation : Operator, keyword = name ++ separator ++ Operation.token operation)
  /-- The arguments whose keywords test a key attribute are the key condition, the others the
  filter. -/
  filed : ∀ arguments reader, run arguments = .ok reader →
    ∃ condition keyLeaves filterLeaves,
      reader.request.access = .query condition none ∧ Joins (some condition) keyLeaves ∧
      Joins reader.request.read.condition filterLeaves ∧
      List.Forall₂ Asks (arguments.filter fun argument => schema.asksKey argument.1) keyLeaves ∧
      List.Forall₂ Asks (arguments.filter fun argument => !schema.asksKey argument.1)
        filterLeaves

end KeySchema

/-- **Which keywords go into the key condition**: those that begin with the name of a key
attribute, as long as it reads back. -/
theorem ReadSource.recognisesKeys (source : ReadSource) :
    source.schema.RecognisesKeys source.query where
  named _ _ := resolve_name_iff
  spelled _ := KeySchema.asksKey_iff
  filed arguments reader hquery := by
    obtain ⟨leaves, condition, hasks, _, hjoins, rfl⟩ := query_eq_ok_iff.mp hquery
    exact ⟨condition, _, _, rfl, hjoins, joins_allOf _, KeySchema.keyLeaves_asked hasks,
      KeySchema.filterLeaves_asked hasks⟩

/-- How keys are drawn from arguments. -/
structure Table.DrawsKeys (table : Table) : Prop where
  /-- The arguments of a key are all on key attributes, and the key has them all. -/
  key : ∀ arguments key, table.key arguments = .ok key →
    (∀ name ∈ Fields.names arguments, table.schema.isKey name = true) ∧
      ∀ name, Fields.has key name = true ↔ name ∈ Fields.names arguments
  /-- Among the arguments of an update, those on key attributes are the key. -/
  update : ∀ arguments conditions request, table.updateRequest arguments conditions = .ok request →
    ∀ name, Fields.has request.key name = true ↔
      name ∈ Fields.names arguments ∧ table.schema.isKey name = true

/-- **How a table draws keys**: a call by key from all of its arguments, an update from those on
key attributes. -/
theorem Table.drawsKeys (table : Table) : table.DrawsKeys where
  key arguments key hkey := by
    obtain ⟨values, hvalues, hfrom⟩ := key_eq_ok hkey
    rw [← Arguments.names_of_values hvalues]
    unfold KeySchema.keyFrom at hfrom
    split at hfrom
    · cases hfrom
    · next hnone =>
        rw [← (KeySchema.complete_eq_ok_iff.mp hfrom).1]
        refine ⟨?_, Fields.has_canonical values⟩
        intro name hname
        obtain ⟨field, hfield, rfl⟩ := List.mem_map.mp hname
        simpa using List.find?_eq_none.mp hnone field hfield
  update arguments conditions request hupdate name := by
    obtain ⟨values, hvalues, hrest⟩ := bind_eq_ok_iff.mp hupdate
    obtain ⟨⟨key, rest⟩, hsplit, hrest⟩ := bind_eq_ok_iff.mp hrest
    obtain ⟨changes, _, hrest⟩ := bind_eq_ok_iff.mp hrest
    obtain ⟨_, _, hrequest⟩ := bind_eq_ok_iff.mp hrest
    cases hrequest
    obtain ⟨drawn, hdrawn, hpair⟩ := bind_eq_ok_iff.mp hsplit
    cases hpair
    rw [← Arguments.names_of_values hvalues, ← (KeySchema.complete_eq_ok_iff.mp hdrawn).1,
      Fields.has_canonical]
    simp [Fields.names]

/-- **Queries recognise the key attributes that keys are drawn from**, wherever a path can
hold their names. -/
theorem Table.recognises_keys (table : Table) :
    table.DrawsKeys ∧ table.schema.RecognisesKeys table.query ∧
      ∀ index : IndexDeclaration, index.schema.RecognisesKeys (table.queryIndex index) :=
  ⟨table.drawsKeys, table.source.recognisesKeys, fun index =>
    (table.indexSource index).recognisesKeys⟩

/-- Visits whose range key has a separator in its name. -/
def localVisits : Table where
  declaration :=
    { name := "visits", schema := { hashKey := "account", rangeKey := some "day__local" } }

/-- The name of such a range key asks for an attribute of a map, and filters. -/
theorem Table.query_separator_in_name :
    ∃ reader leaf,
      localVisits.query [("account", .text "a"), ("day__local", .integer 2)] = .ok reader ∧
      localVisits.schema.isKey "day__local" = true ∧ Asks ("day__local", .integer 2) leaf ∧
      leaf.path.names = ["day", "local"] ∧
      reader.request.read.condition = some leaf.condition := by
  let path : AttributePath := ⟨["day", "local"], by decide, by decide⟩
  let leaf : Leaf := ⟨path, .compare .equal (.number "2")⟩
  have hasks : Asks ("day__local", .integer 2) leaf := ⟨.number "2", rfl, rfl⟩
  exact ⟨_, leaf, rfl, by decide, hasks, rfl, rfl⟩

end KeywordTable
