import KeywordTable.KeySchema

/-!
# Three ways to the same key

A key is drawn from fields that are all meant for it (`keyFrom`), from a mixed list
(`split`), and from an item (`keyOf`).  All three look for the same names, and what they
find is put in the one order that keys have; so each of them is determined by whether a key
attribute is missing (`HasKey`) and by the fields on key attributes.

The main result, `drawsAlike`, says this for every list of fields that names nothing twice.
It rests on the fact that canonical fields are determined by their content
(`Fields.Sorted.eq_of_perm`), whatever order the content was found in.
-/

namespace KeywordTable

namespace KeySchema

/-- The names of the key attributes. -/
def attributes (schema : KeySchema) : List String := schema.hashKey :: schema.rangeKey.toList

/-- No key attribute is missing among the fields. -/
def HasKey (schema : KeySchema) (fields : Fields Value) : Prop :=
  ∀ name ∈ schema.attributes, name ∈ Fields.names fields

/-- The fields on key attributes, in order. -/
def keyFields (schema : KeySchema) (fields : Fields Value) : Fields Value :=
  fields.filter fun field => schema.isKey field.1

/-- The other fields, in order. -/
def otherFields (schema : KeySchema) (fields : Fields Value) : Fields Value :=
  fields.filter fun field => !schema.isKey field.1

variable {schema : KeySchema} {fields : Fields Value} {key : Item} {rest : Fields Value}

/-- The attributes of a schema are its hash key and its range key. -/
theorem mem_attributes {name : String} :
    name ∈ schema.attributes ↔ schema.isKey name = true := by
  rw [isKey_iff, attributes]
  simp [eq_comm]

/-- The fields for the key are the given fields of its attributes. -/
theorem mem_keyFields {field : String × Value} :
    field ∈ schema.keyFields fields ↔ field ∈ fields ∧ field.1 ∈ schema.attributes := by
  rw [keyFields, List.mem_filter, mem_attributes]

/-- In which order fields come does not matter for those of the key. -/
theorem keyFields_perm {entries : Fields Value} (h : entries.Perm fields) :
    (schema.keyFields entries).Perm (schema.keyFields fields) :=
  h.filter _

/-- Nothing is lost between the two parts. -/
theorem keyFields_append_otherFields_perm (schema : KeySchema) (fields : Fields Value) :
    (schema.keyFields fields ++ schema.otherFields fields).Perm fields :=
  List.filter_append_perm _ fields

/-- There are no other fields if all are for the key. -/
theorem otherFields_eq_nil_iff :
    schema.otherFields fields = [] ↔ ∀ field ∈ fields, schema.isKey field.1 = true := by
  simp [otherFields]

/-- Fields that are all for the key are the fields for the key. -/
theorem keyFields_eq_self (h : schema.otherFields fields = []) :
    schema.keyFields fields = fields :=
  List.filter_eq_self.mpr (otherFields_eq_nil_iff.mp h)

/-- Fields for the key have different names if all fields have. -/
theorem nodup_names_keyFields (h : (Fields.names fields).Nodup) :
    (Fields.names (schema.keyFields fields)).Nodup :=
  List.Nodup.sublist (List.filter_sublist.map Prod.fst) h

/-! ### Missing key attributes -/

/-- Whether the key is complete does not depend on the order of the fields. -/
theorem hasKey_of_perm {entries : Fields Value} (h : entries.Perm fields) :
    schema.HasKey entries ↔ schema.HasKey fields :=
  forall₂_congr fun _ _ => (h.map Prod.fst).mem_iff

/-- Only fields on key attributes make a key complete. -/
theorem hasKey_keyFields : schema.HasKey (schema.keyFields fields) ↔ schema.HasKey fields := by
  refine forall₂_congr fun name hname => ?_
  simp only [Fields.names, List.mem_map, mem_keyFields]
  constructor
  · rintro ⟨field, ⟨hmem, _⟩, heq⟩
    exact ⟨field, hmem, heq⟩
  · rintro ⟨field, hmem, rfl⟩
    exact ⟨field, ⟨hmem, hname⟩, rfl⟩

/-- A key that has all its attributes is complete, and no other. -/
theorem complete_iff_hasKey {result : Item} :
    schema.complete key = .ok result ↔ key = result ∧ schema.HasKey key := by
  rw [complete_eq_ok_iff]
  simp only [HasKey, mem_attributes, Fields.has_iff]

/-- Nor does it depend on whether they are in canonical form. -/
theorem hasKey_canonical (fields : Fields Value) :
    schema.HasKey (Fields.canonical fields) ↔ schema.HasKey fields := by
  refine forall₂_congr fun name _ => ?_
  rw [← Fields.has_iff, Fields.has_canonical]

/-! ### The three ways -/

/-- **Splitting** puts the fields on key attributes in order and keeps the others as they
stand. -/
theorem split_eq_ok_iff :
    schema.split fields = .ok (key, rest) ↔
      schema.HasKey fields ∧ Fields.canonical (schema.keyFields fields) = key ∧
        schema.otherFields fields = rest := by
  rw [split, bind_eq_ok_iff]
  constructor
  · rintro ⟨found, hfound, hpair⟩
    obtain ⟨rfl, hhas⟩ := complete_iff_hasKey.mp hfound
    cases hpair
    exact ⟨hasKey_keyFields.mp ((hasKey_canonical _).mp hhas), rfl, rfl⟩
  · rintro ⟨hhas, rfl, rfl⟩
    refine ⟨_, complete_iff_hasKey.mpr ⟨rfl, ?_⟩, rfl⟩
    exact (hasKey_canonical _).mpr (hasKey_keyFields.mpr hhas)

/-- **A key alone** consists of fields on key attributes. -/
theorem keyFrom_eq_ok_iff :
    schema.keyFrom fields = .ok key ↔
      schema.HasKey fields ∧ schema.otherFields fields = [] ∧ Fields.canonical fields = key := by
  unfold keyFrom
  split
  · next field hfound =>
      have hother : (!schema.isKey field.1) = true :=
        List.find?_some (p := fun field : String × Value => !schema.isKey field.1) hfound
      have hmem : field ∈ schema.otherFields fields :=
        List.mem_filter.mpr ⟨List.mem_of_find?_eq_some hfound, hother⟩
      constructor
      · nofun
      · rintro ⟨_, hnone, _⟩
        rw [hnone] at hmem
        cases hmem
  · next hnone =>
      have hothers : schema.otherFields fields = [] := by
        simpa [otherFields] using hnone
      rw [complete_iff_hasKey, hasKey_canonical]
      constructor
      · exact fun h => ⟨h.2, hothers, h.1⟩
      · exact fun h => ⟨h.2.2, h.1⟩

/-- A key alone is what splitting finds when there is nothing else. -/
theorem keyFrom_iff_split :
    schema.keyFrom fields = .ok key ↔ schema.split fields = .ok (key, []) := by
  rw [keyFrom_eq_ok_iff, split_eq_ok_iff]
  constructor
  · rintro ⟨hhas, hothers, rfl⟩
    exact ⟨hhas, by rw [keyFields_eq_self hothers], hothers⟩
  · rintro ⟨hhas, rfl, hothers⟩
    exact ⟨hhas, hothers, by rw [keyFields_eq_self hothers]⟩

/-- The fields of a key make that key again, in any order. -/
theorem keyFrom_of_perm {entries : Fields Value} (h : schema.split fields = .ok (key, rest))
    (hnodup : (Fields.names fields).Nodup) (hperm : entries.Perm key) :
    schema.keyFrom entries = .ok key := by
  obtain ⟨hhas, rfl, _⟩ := split_eq_ok_iff.mp h
  have hentries : entries.Perm (schema.keyFields fields) :=
    hperm.trans (Fields.canonical_perm (nodup_names_keyFields hnodup))
  refine keyFrom_eq_ok_iff.mpr ⟨?_, ?_, ?_⟩
  · exact (hasKey_of_perm hentries).mpr (hasKey_keyFields.mpr hhas)
  · refine otherFields_eq_nil_iff.mpr fun field hmem => ?_
    exact (List.mem_filter.mp (hentries.mem_iff.mp hmem)).2
  · exact Fields.canonical_eq_of_perm (Fields.sorted_canonical _) hperm

/-- **The key of an item** is what splitting its fields finds, and it fails alike. -/
theorem keyOf_canonical (hnodup : (Fields.names fields).Nodup) :
    schema.keyOf (Fields.canonical fields) = (schema.split fields).map Prod.fst := by
  have hkey : schema.keyFields (Fields.canonical fields) =
      Fields.canonical (schema.keyFields fields) := by
    refine Fields.Sorted.eq_of_perm ?_ (Fields.sorted_canonical _) ?_
    · exact List.Pairwise.filter _ (Fields.sorted_canonical fields)
    · exact (keyFields_perm (Fields.canonical_perm hnodup)).trans
        (Fields.canonical_perm (nodup_names_keyFields hnodup)).symm
  rw [keyOf, split, ← keyFields, ← keyFields, hkey]
  cases schema.complete (Fields.canonical (schema.keyFields fields)) <;> rfl

/-! ### Faults -/

/-- A key that cannot be split off is an invalid key. -/
theorem eq_invalidKey_of_split {fault : Fault} (h : schema.split fields = .error fault) :
    ∃ reason, fault = .invalidKey reason := by
  rcases bind_eq_error_iff.mp h with hincomplete | ⟨_, _, hpair⟩
  · exact eq_invalidKey_of_complete hincomplete
  · cases hpair

/-- A key that the fields do not make is an invalid key. -/
theorem eq_invalidKey_of_keyFrom {fault : Fault} (h : schema.keyFrom fields = .error fault) :
    ∃ reason, fault = .invalidKey reason := by
  unfold keyFrom at h
  split at h
  · cases h
    exact ⟨_, rfl⟩
  · exact eq_invalidKey_of_complete h

/-- How keys are drawn from these fields. -/
structure DrawsAlike (schema : KeySchema) (fields : Fields Value) : Prop where
  /-- Splitting works exactly if all key attributes are among the names. -/
  split_iff : (∃ key rest, schema.split fields = .ok (key, rest)) ↔
    ∀ name ∈ schema.attributes, name ∈ Fields.names fields
  /-- The key holds the key attributes with their values and is in canonical form. -/
  key : ∀ key rest, schema.split fields = .ok (key, rest) →
    Fields.Sorted key ∧ (∀ name, name ∈ Fields.names key ↔ name ∈ schema.attributes) ∧
      ∀ field, field ∈ key ↔ field ∈ fields ∧ field.1 ∈ schema.attributes
  /-- The rest holds the other fields in their order, and between the two nothing is lost. -/
  rest : ∀ key rest, schema.split fields = .ok (key, rest) →
    rest = fields.filter (fun field => field.1 ∉ schema.attributes) ∧
      (key ++ rest).Perm fields
  /-- The fields of the key, in any order, make that key. -/
  again : ∀ key rest, schema.split fields = .ok (key, rest) →
    ∀ entries, entries.Perm key → schema.keyFrom entries = .ok key
  /-- The item made of all fields has that key, or none. -/
  item : schema.keyOf (Fields.canonical fields) = (schema.split fields).map Prod.fst
  /-- All the fields are a key exactly if splitting leaves nothing. -/
  alone : ∀ key, schema.keyFrom fields = .ok key ↔ schema.split fields = .ok (key, [])
  /-- A key that cannot be drawn is invalid. -/
  refused : ∀ fault, schema.split fields = .error fault ∨ schema.keyFrom fields = .error fault ∨
    schema.keyOf (Fields.canonical fields) = .error fault → ∃ reason, fault = .invalidKey reason

/-- **The three ways of drawing a key agree.** -/
theorem drawsAlike (schema : KeySchema) {fields : Fields Value}
    (hnodup : (Fields.names fields).Nodup) : schema.DrawsAlike fields where
  split_iff := by
    simp only [split_eq_ok_iff]
    constructor
    · rintro ⟨_, _, hhas, _, _⟩
      exact hhas
    · exact fun hhas => ⟨_, _, hhas, rfl, rfl⟩
  key key rest h := by
    obtain ⟨hhas, rfl, _⟩ := split_eq_ok_iff.mp h
    have hperm : (Fields.canonical (schema.keyFields fields)).Perm (schema.keyFields fields) :=
      Fields.canonical_perm (nodup_names_keyFields hnodup)
    refine ⟨Fields.sorted_canonical _, fun name => ⟨fun hname => ?_, ?_⟩, fun field => ?_⟩
    · obtain ⟨field, hfield, rfl⟩ := List.mem_map.mp hname
      exact (mem_keyFields.mp (hperm.mem_iff.mp hfield)).2
    · exact (hasKey_of_perm hperm).mpr (hasKey_keyFields.mpr hhas) name
    · rw [hperm.mem_iff, mem_keyFields]
  rest key rest h := by
    obtain ⟨_, rfl, rfl⟩ := split_eq_ok_iff.mp h
    constructor
    · simp [otherFields, mem_attributes]
    · exact ((Fields.canonical_perm (nodup_names_keyFields hnodup)).append_right _).trans
        (keyFields_append_otherFields_perm schema fields)
  again key rest h entries hperm := keyFrom_of_perm h hnodup hperm
  item := keyOf_canonical hnodup
  alone key := keyFrom_iff_split
  refused fault h := by
    rcases h with hsplit | hfrom | hof
    · exact eq_invalidKey_of_split hsplit
    · exact eq_invalidKey_of_keyFrom hfrom
    · rw [keyOf] at hof
      exact eq_invalidKey_of_complete hof

/-- Fields whose range key stands in front of the hash key, with others around them. -/
theorem drawsAlike_visit :
    let visits : KeySchema := { hashKey := "account", rangeKey := some "day" }
    let fields : Fields Value :=
      [("logins__plus", .number "1"), ("day", .number "2"), ("account__name", .text "b"),
        ("account", .text "a")]
    (Fields.names fields).Nodup ∧ visits.DrawsAlike fields :=
  ⟨by decide, drawsAlike _ (by decide)⟩

end KeySchema

end KeywordTable
