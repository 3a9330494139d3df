import KeywordTable.Proofs.Compiling
import KeywordTable.Proofs.Conditions

/-!
# How a query splits its arguments

Every argument of a query asks for one test, its leaf (`Asks`).  The leaves on the key
attributes themselves make the key condition and all others the filter, also those on
attributes nested below a key attribute; both keep the order of the arguments
(`KeySchema.Splits`).

`KeySchema.Admits` says which leaves make a key condition, without regard to how it is
checked.  The main result, `Table.query_splits`, is that a query of a table or of an index
is accepted exactly when every argument asks for a test and the leaves are admitted, and
that it then splits them.
-/

namespace KeywordTable

/-! ### What arguments ask for -/

/-- The argument asks for this test: its value has a form in a table, and of that the keyword
makes the test. -/
def Asks (argument : String × Plain) (leaf : Leaf) : Prop :=
  ∃ value, argument.2.toValue = .ok value ∧
    Condition.ofArgument argument.1 value = .ok leaf.condition

/-- The keyword of an argument resolves to the path and the operator of its leaf. -/
theorem Asks.resolves {argument : String × Plain} {leaf : Leaf} (h : Asks argument leaf) :
    resolve Operator argument.1 = .ok (leaf.path, leaf.asked.operator) := by
  obtain ⟨value, _, hcondition⟩ := h
  obtain ⟨other, heq, hkeeps⟩ := Condition.exists_leaf_of_ofArgument hcondition
  rw [Leaf.condition_injective heq]
  exact hkeeps.resolve_eq

/-- An argument asks for one test only. -/
theorem Asks.unique {argument : String × Plain} {leaf other : Leaf} (h : Asks argument leaf)
    (hother : Asks argument other) : leaf = other := by
  obtain ⟨value, hvalue, hcondition⟩ := h
  obtain ⟨value', hvalue', hcondition'⟩ := hother
  rw [hvalue] at hvalue'
  cases hvalue'
  rw [hcondition] at hcondition'
  exact Leaf.condition_injective (Except.ok.inj hcondition')

/-- Arguments ask for their leaves and for no others. -/
theorem Asks.unique_list {arguments : Arguments} {leaves others : List Leaf}
    (h : List.Forall₂ Asks arguments leaves) (hothers : List.Forall₂ Asks arguments others) :
    leaves = others := by
  induction h generalizing others with
  | nil =>
      cases hothers
      rfl
  | cons hasks _ ih =>
      obtain _ | ⟨hasks', hothers⟩ := hothers
      rw [hasks.unique hasks', ih hothers]

/-- **Arguments are conditions** exactly when each asks for a test; the conditions are these
tests. -/
theorem Arguments.conditions_eq_ok_iff {arguments : Arguments} {conditions : List Condition} :
    arguments.conditions = .ok conditions ↔
      ∃ leaves, List.Forall₂ Asks arguments leaves ∧
        conditions = leaves.map Leaf.condition := by
  unfold Arguments.conditions
  rw [bind_eq_ok_iff]
  induction arguments generalizing conditions with
  | nil =>
      constructor
      · rintro ⟨values, hvalues, hconditions⟩
        cases hvalues
        cases hconditions
        exact ⟨[], .nil, rfl⟩
      · rintro ⟨leaves, hasks, rfl⟩
        cases hasks
        exact ⟨[], rfl, rfl⟩
  | cons argument rest ih =>
      obtain ⟨name, plain⟩ := argument
      constructor
      · rintro ⟨values, hvalues, hconditions⟩
        obtain ⟨value, others, hvalue, hothers, rfl⟩ := values_cons_eq_ok.mp hvalues
        obtain ⟨condition, more, hcondition, hmore, rfl⟩ :=
          Condition.ofArguments_cons_eq_ok.mp hconditions
        obtain ⟨leaf, rfl, _⟩ := Condition.exists_leaf_of_ofArgument hcondition
        obtain ⟨leaves, hasks, rfl⟩ := ih.mp ⟨others, hothers, hmore⟩
        exact ⟨leaf :: leaves, .cons ⟨value, hvalue, hcondition⟩ hasks, rfl⟩
      · rintro ⟨leaves, hasks, rfl⟩
        obtain _ | ⟨⟨value, hvalue, hcondition⟩, hmore⟩ := hasks
        obtain ⟨others, hothers, hconditions⟩ := ih.mpr ⟨_, hmore, rfl⟩
        exact ⟨_, values_cons_eq_ok.mpr ⟨value, others, hvalue, hothers, rfl⟩,
          Condition.ofArguments_cons_eq_ok.mpr ⟨_, _, hcondition, hconditions, rfl⟩⟩

/-! ### Key conditions -/

/-- The operators that a range key can be tested with. -/
def rangeOperators : List Operator :=
  [.compare .equal, .compare .less, .compare .lessOrEqual, .compare .greater,
    .compare .greaterOrEqual, .between, .beginsWith]

namespace KeySchema

variable (schema : KeySchema)

/-- The path leads to the hash key itself. -/
def OnHashKey (path : AttributePath) : Prop := path.names = [schema.hashKey]

/-- The path leads to the range key itself. -/
def OnRangeKey (path : AttributePath) : Prop := ∃ name ∈ schema.rangeKey, path.names = [name]

/-- The path leads to a key attribute itself and not below it. -/
def OnKey (path : AttributePath) : Prop := schema.OnHashKey path ∨ schema.OnRangeKey path

instance (path : AttributePath) : Decidable (schema.OnHashKey path) :=
  inferInstanceAs (Decidable (_ = _))

instance (path : AttributePath) : Decidable (schema.OnRangeKey path) :=
  inferInstanceAs (Decidable (∃ name ∈ schema.rangeKey, _))

instance (path : AttributePath) : Decidable (schema.OnKey path) :=
  inferInstanceAs (Decidable (_ ∨ _))

/-- These leaves make a key condition: the hash key is tested, only for equality, and the
range key only by what compares its order. -/
structure Admits (leaves : List Leaf) : Prop where
  hash : ∀ leaf ∈ leaves, schema.OnHashKey leaf.path → leaf.asked.operator = .compare .equal
  range : ∀ leaf ∈ leaves, schema.OnRangeKey leaf.path → leaf.asked.operator ∈ rangeOperators
  tested : ∃ leaf ∈ leaves, schema.OnHashKey leaf.path

/-- The leaves on key attributes, in order. -/
def keyLeaves (leaves : List Leaf) : List Leaf := leaves.filter fun leaf => schema.OnKey leaf.path

/-- The other leaves, in order. -/
def filterLeaves (leaves : List Leaf) : List Leaf :=
  leaves.filter fun leaf => ¬ schema.OnKey leaf.path

variable {schema} {path : AttributePath} {leaf : Leaf} {leaves : List Leaf}

/-- The leaves of the key condition are those on key attributes. -/
theorem mem_keyLeaves :
    leaf ∈ schema.keyLeaves leaves ↔ leaf ∈ leaves ∧ schema.OnKey leaf.path := by
  simp [keyLeaves]

/-- Nothing is left for the filter if all leaves are on key attributes. -/
theorem filterLeaves_eq_nil_iff :
    schema.filterLeaves leaves = [] ↔ ∀ leaf ∈ leaves, schema.OnKey leaf.path := by
  simp [filterLeaves]

/-- Leaves that are on no key attribute make no difference. -/
theorem admits_keyLeaves : schema.Admits (schema.keyLeaves leaves) ↔ schema.Admits leaves := by
  constructor
  · intro h
    obtain ⟨leaf, hmem, hhash⟩ := h.tested
    exact ⟨fun leaf hleaf hon => h.hash leaf (mem_keyLeaves.mpr ⟨hleaf, .inl hon⟩) hon,
      fun leaf hleaf hon => h.range leaf (mem_keyLeaves.mpr ⟨hleaf, .inr hon⟩) hon,
      leaf, (mem_keyLeaves.mp hmem).1, hhash⟩
  · intro h
    obtain ⟨leaf, hmem, hhash⟩ := h.tested
    exact ⟨fun leaf hleaf => h.hash leaf (mem_keyLeaves.mp hleaf).1,
      fun leaf hleaf => h.range leaf (mem_keyLeaves.mp hleaf).1,
      leaf, mem_keyLeaves.mpr ⟨hmem, .inl hhash⟩, hhash⟩

/-- A path leads to a key attribute itself if that is its only name. -/
theorem onKey_iff :
    schema.OnKey path ↔ ∃ name, schema.isKey name = true ∧ path.names = [name] := by
  constructor
  · rintro (hhash | ⟨name, hname, hrange⟩)
    · exact ⟨_, isKey_iff.mpr (.inl rfl), hhash⟩
    · exact ⟨name, isKey_iff.mpr (.inr hname), hrange⟩
  · rintro ⟨name, hkey, hnames⟩
    rcases isKey_iff.mp hkey with rfl | hrange
    · exact .inl hnames
    · exact .inr ⟨name, hrange, hnames⟩

/-- A path leads to a key attribute if it is the name of one. -/
theorem isKeyPath_iff : schema.isKeyPath path = true ↔ schema.OnKey path := by
  rw [onKey_iff]
  obtain ⟨names, hne, hlegal⟩ := path
  rcases names with _ | ⟨name, _ | ⟨next, rest⟩⟩
  · exact absurd rfl hne
  · simp [isKeyPath, AttributePath.isTopLevel, AttributePath.root]
  · simp [isKeyPath, AttributePath.isTopLevel]

/-- Of the key attributes themselves only the hash key has its name. -/
theorem root_eq_hashKey_iff (h : schema.OnKey path) :
    path.root = schema.hashKey ↔ schema.OnHashKey path := by
  obtain ⟨name, _, hnames⟩ := onKey_iff.mp h
  obtain ⟨names, hne, hlegal⟩ := path
  cases hnames
  simp [AttributePath.root, OnHashKey]

/-- A leaf goes into the key condition if it is on a key attribute. -/
theorem testsKey_condition (leaf : Leaf) :
    schema.testsKey leaf.condition = decide (schema.OnKey leaf.path) := by
  rw [Bool.eq_iff_iff, decide_eq_true_iff, ← isKeyPath_iff]
  rfl

/-- The hash key may only be tested for equality. -/
theorem checkKeyTest_hash_iff {asked : Test} (h : path.root = schema.hashKey) :
    schema.checkKeyTest (.test path asked) = .ok () ↔ asked.operator = .compare .equal := by
  simp only [checkKeyTest, if_pos h]
  cases asked with
  | compare comparison operand => cases comparison <;> simp [Test.operator, pure, Except.pure]
  | _ => simp [Test.operator]

/-- The range key may be tested by whatever compares its order. -/
theorem checkKeyTest_range_iff {asked : Test} (h : path.root ≠ schema.hashKey) :
    schema.checkKeyTest (.test path asked) = .ok () ↔ asked.operator ∈ rangeOperators := by
  simp only [checkKeyTest, if_neg h]
  cases asked with
  | compare comparison operand =>
      cases comparison <;> simp [Test.operator, rangeOperators, pure, Except.pure]
  | _ => simp [Test.operator, rangeOperators, pure, Except.pure]

/-- **One leaf on a key attribute** passes if its operator suits that attribute. -/
theorem checkKeyTest_eq_ok_iff (h : schema.OnKey leaf.path) :
    schema.checkKeyTest leaf.condition = .ok () ↔
      (schema.OnHashKey leaf.path → leaf.asked.operator = .compare .equal) ∧
        (schema.OnRangeKey leaf.path → leaf.asked.operator ∈ rangeOperators) := by
  have hroot := root_eq_hashKey_iff h
  by_cases hhash : schema.OnHashKey leaf.path
  · rw [Leaf.condition, checkKeyTest_hash_iff (hroot.mpr hhash)]
    constructor
    · intro hequal
      exact ⟨fun _ => hequal, fun _ => hequal ▸ List.mem_cons_self⟩
    · exact fun hboth => hboth.1 hhash
  · rw [Leaf.condition, checkKeyTest_range_iff fun heq => hhash (hroot.mp heq)]
    constructor
    · exact fun hrange => ⟨fun hon => absurd hon hhash, fun _ => hrange⟩
    · exact fun hboth => hboth.2 (h.resolve_left hhash)

/-- The hash key counts as tested if a leaf is on it. -/
theorem testsHashKey_condition (h : schema.OnKey leaf.path) :
    schema.testsHashKey leaf.condition = true ↔ schema.OnHashKey leaf.path := by
  rw [← root_eq_hashKey_iff h]
  show (leaf.path.root == schema.hashKey) = true ↔ _
  exact beq_iff_eq

/-- **A key condition is made** of leaves on key attributes exactly when they are admitted;
it makes all of their tests. -/
theorem keyCondition_eq_ok_iff (hkey : ∀ leaf ∈ leaves, schema.OnKey leaf.path)
    {condition : Condition} :
    schema.keyCondition (leaves.map Leaf.condition) = .ok condition ↔
      schema.Admits leaves ∧ Joins (some condition) leaves := by
  have hchecks : (leaves.map Leaf.condition).forM schema.checkKeyTest = .ok () ↔
      ∀ leaf ∈ leaves, (schema.OnHashKey leaf.path → leaf.asked.operator = .compare .equal) ∧
        (schema.OnRangeKey leaf.path → leaf.asked.operator ∈ rangeOperators) := by
    rw [forM_eq_ok_iff, List.forall_mem_map]
    exact forall₂_congr fun leaf hleaf => checkKeyTest_eq_ok_iff (hkey leaf hleaf)
  have htested : (leaves.map Leaf.condition).any schema.testsHashKey = true ↔
      ∃ leaf ∈ leaves, schema.OnHashKey leaf.path := by
    rw [List.any_map, List.any_eq_true]
    exact exists_congr fun leaf =>
      and_congr_right fun hleaf => testsHashKey_condition (hkey leaf hleaf)
  rw [keyCondition, bind_eq_ok_iff]
  constructor
  · rintro ⟨_, hforM, hrest⟩
    rw [hchecks] at hforM
    split at hrest
    · next hany =>
        have hjoined := joins_allOf leaves
        cases hall : Condition.allOf (leaves.map Leaf.condition) with
        | none =>
            rw [hall] at hrest
            cases hrest
        | some joined =>
            rw [hall] at hrest hjoined
            cases hrest
            have hadmits : schema.Admits leaves :=
              ⟨fun leaf hleaf => (hforM leaf hleaf).1, fun leaf hleaf => (hforM leaf hleaf).2,
                htested.mp hany⟩
            exact ⟨hadmits, hjoined⟩
    · cases hrest
  · rintro ⟨hadmits, hjoins⟩
    refine ⟨(), hchecks.mpr ?_, ?_⟩
    · exact fun leaf hleaf => ⟨hadmits.hash leaf hleaf, hadmits.range leaf hleaf⟩
    · rw [if_pos (htested.mpr hadmits.tested), ← hjoins.eq_allOf]
      rfl

/-- The key condition gets the tests on key attributes, in the caller's order. -/
theorem filter_testsKey (schema : KeySchema) (leaves : List Leaf) :
    (leaves.map Leaf.condition).filter schema.testsKey =
      (schema.keyLeaves leaves).map Leaf.condition := by
  rw [List.filter_map]
  exact congrArg _ (List.filter_congr fun leaf _ => testsKey_condition leaf)

/-- The filter gets the other tests, in the caller's order too. -/
theorem filter_not_testsKey (schema : KeySchema) (leaves : List Leaf) :
    ((leaves.map Leaf.condition).filter fun condition => !schema.testsKey condition) =
      (schema.filterLeaves leaves).map Leaf.condition := by
  rw [List.filter_map]
  refine congrArg _ (List.filter_congr fun leaf _ => ?_)
  rw [decide_not, ← testsKey_condition]
  rfl

/-! ### Queries -/

/-- The request makes the tests of the leaves: those on key attributes are its key condition
and the others its filter. -/
structure Splits (schema : KeySchema) (leaves : List Leaf) (request : PageRequest) : Prop where
  keyCondition : ∃ condition, request.access = .query condition none ∧
    Joins (some condition) (schema.keyLeaves leaves)
  filter : Joins request.read.condition (schema.filterLeaves leaves)

/-- What arguments come to as a query of a table or of one of its indexes. -/
structure Queries (schema : KeySchema) (table : String) (index : Option String)
    (arguments : Arguments) (outcome : Except Fault Reader) : Prop where
  /-- A query is accepted exactly when every argument asks for a test and the tests make a
  key condition. -/
  accepts : (∃ reader, outcome = .ok reader) ↔
    ∃ leaves, List.Forall₂ Asks arguments leaves ∧ schema.Admits leaves
  /-- Its request makes these tests and no others. -/
  splits : ∀ reader leaves, outcome = .ok reader → List.Forall₂ Asks arguments leaves →
    schema.Splits leaves reader.request
  /-- It has no filter exactly when every test is on a key attribute. -/
  unfiltered : ∀ reader leaves, outcome = .ok reader → List.Forall₂ Asks arguments leaves →
    (reader.request.read.condition = none ↔ ∀ leaf ∈ leaves, schema.OnKey leaf.path)
  /-- It names what it reads from. -/
  names : ∀ reader, outcome = .ok reader →
    reader.request.read.table = table ∧ reader.request.read.index = index

end KeySchema

namespace ReadSource

variable {source : ReadSource} {arguments : Arguments}

/-- The request that makes the tests of the leaves. -/
def requestOf (source : ReadSource) (condition : Condition) (leaves : List Leaf) : PageRequest :=
  { access := .query condition none
    read :=
      { table := source.table
        index := source.index
        condition := Condition.allOf ((source.schema.filterLeaves leaves).map Leaf.condition) } }

/-- **A query, step by step**: what the arguments ask for, whether the part of it on key
attributes is admitted, and the request. -/
theorem query_eq_ok_iff {reader : Reader} :
    source.query arguments = .ok reader ↔
      ∃ leaves condition, List.Forall₂ Asks arguments leaves ∧ source.schema.Admits leaves ∧
        Joins (some condition) (source.schema.keyLeaves leaves) ∧
        reader = .ofRequest (source.requestOf condition leaves) source.validator
          source.incomplete := by
  have hkey : ∀ leaves, ∀ leaf ∈ source.schema.keyLeaves leaves,
      source.schema.OnKey leaf.path :=
    fun leaves leaf hleaf => (KeySchema.mem_keyLeaves.mp hleaf).2
  rw [query, bind_eq_ok_iff]
  constructor
  · rintro ⟨conditions, hconditions, hrest⟩
    obtain ⟨leaves, hasks, rfl⟩ := Arguments.conditions_eq_ok_iff.mp hconditions
    obtain ⟨condition, hcondition, hreader⟩ := bind_eq_ok_iff.mp hrest
    rw [KeySchema.filter_testsKey, KeySchema.keyCondition_eq_ok_iff (hkey leaves)] at hcondition
    rw [KeySchema.filter_not_testsKey] at hreader
    cases hreader
    exact ⟨leaves, condition, hasks, KeySchema.admits_keyLeaves.mp hcondition.1, hcondition.2,
      rfl⟩
  · rintro ⟨leaves, condition, hasks, hadmits, hjoins, rfl⟩
    refine ⟨_, Arguments.conditions_eq_ok_iff.mpr ⟨leaves, hasks, rfl⟩, ?_⟩
    refine bind_eq_ok_iff.mpr ⟨condition, ?_, ?_⟩
    · rw [KeySchema.filter_testsKey, KeySchema.keyCondition_eq_ok_iff (hkey leaves)]
      exact ⟨KeySchema.admits_keyLeaves.mpr hadmits, hjoins⟩
    · rw [KeySchema.filter_not_testsKey]
      rfl

/-- **What a query accepts and sends**, through a table or an index. -/
theorem queries (source : ReadSource) (arguments : Arguments) :
    source.schema.Queries source.table source.index arguments (source.query arguments) where
  accepts := by
    constructor
    · rintro ⟨reader, hquery⟩
      obtain ⟨leaves, _, hasks, hadmits, _, _⟩ := query_eq_ok_iff.mp hquery
      exact ⟨leaves, hasks, hadmits⟩
    · rintro ⟨leaves, hasks, hadmits⟩
      obtain ⟨leaf, hleaf, _⟩ := (KeySchema.admits_keyLeaves.mpr hadmits).tested
      obtain ⟨condition, hjoins⟩ := exists_joins (List.ne_nil_of_mem hleaf)
      exact ⟨_, query_eq_ok_iff.mpr ⟨leaves, condition, hasks, hadmits, hjoins, rfl⟩⟩
  splits reader leaves hquery hasks := by
    obtain ⟨others, condition, hothers, _, hjoins, rfl⟩ := query_eq_ok_iff.mp hquery
    rw [Asks.unique_list hasks hothers]
    exact ⟨⟨condition, rfl, hjoins⟩, joins_allOf _⟩
  unfiltered reader leaves hquery hasks := by
    obtain ⟨others, condition, hothers, _, _, rfl⟩ := query_eq_ok_iff.mp hquery
    rw [Asks.unique_list hasks hothers]
    exact (joins_allOf _).eq_none_iff.trans KeySchema.filterLeaves_eq_nil_iff
  names reader hquery := by
    obtain ⟨_, _, _, _, _, rfl⟩ := query_eq_ok_iff.mp hquery
    exact ⟨rfl, rfl⟩

end ReadSource

/-- **A query splits its arguments**, of a table and of an index. -/
theorem Table.query_splits (table : Table) (arguments : Arguments) :
    table.schema.Queries table.name none arguments (table.query arguments) ∧
      ∀ index : IndexDeclaration,
        index.schema.Queries table.name (some index.name) arguments
          (table.queryIndex index arguments) :=
  ⟨table.source.queries arguments, fun index => (table.indexSource index).queries arguments⟩

end KeywordTable
