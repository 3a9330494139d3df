/-!
# Named fields

Everything a table holds or is asked about is a list of named fields.  Two
disciplines are used.  **Canonical** fields are sorted by name and name nothing
twice, so two of them with the same content are equal; items, keys and nested
maps are kept this way by building them with `put`.  **Ordered** fields keep the
order in which a caller gave them; keyword arguments are kept this way by
building them with `assign`, where a repeated name keeps its first place and
takes its last value.

* `lookup_put` — writing a field changes that field and no other;
* `sorted_put` — writing a field keeps canonical fields canonical;
* `canonical_perm` and `canonical_eq_of_perm` — the canonical form of fields with
  different names holds these fields, and it does not depend on their order.
-/

namespace KeywordTable

/-- Named fields in list form. -/
abbrev Fields (α : Type) := List (String × α)

namespace Fields

variable {α : Type}

/-- The names, in field order. -/
def names (fields : Fields α) : List String := fields.map Prod.fst

/-- Some field carries this name. -/
def has (fields : Fields α) (name : String) : Bool := (fields.lookup name).isSome

/-- Write a field at its place in the order of names, replacing an old one. -/
def put (fields : Fields α) (name : String) (value : α) : Fields α :=
  match fields with
  | [] => [(name, value)]
  | (n, v) :: rest =>
    if name = n then (name, value) :: rest
    else if name < n then (name, value) :: (n, v) :: rest
    else (n, v) :: put rest name value

/-- Write a field where its name already stands, and last when it is new. -/
def assign (fields : Fields α) (name : String) (value : α) : Fields α :=
  match fields with
  | [] => [(name, value)]
  | (n, v) :: rest =>
    if name = n then (n, value) :: rest else (n, v) :: assign rest name value

/-- The canonical fields with the given content; of a repeated name the last
value counts. -/
def canonical (pairs : Fields α) : Fields α :=
  pairs.foldl (fun fields pair => fields.put pair.1 pair.2) []

/-- The ordered fields with the given content; a repeated name keeps its first
place and takes its last value. -/
def ordered (pairs : Fields α) : Fields α :=
  pairs.foldl (fun fields pair => fields.assign pair.1 pair.2) []

/-- Canonical form: names strictly increase. -/
def Sorted (fields : Fields α) : Prop :=
  fields.Pairwise fun a b => a.1 < b.1

/-- Writing a field changes that field and no other. -/
theorem lookup_put (fields : Fields α) (name other : String) (value : α) :
    (fields.put name value).lookup other =
      if other = name then some value else fields.lookup other := by
  induction fields with
  | nil => grind [put]
  | cons field rest ih =>
    obtain ⟨n, v⟩ := field
    grind [put]

/-- After a field was written, the fields have its name and the names they had. -/
theorem has_put (fields : Fields α) (name other : String) (value : α) :
    (fields.put name value).has other = true ↔ fields.has other = true ∨ other = name := by
  rw [has, lookup_put]
  by_cases h : other = name <;> simp [h, has]

/-- Fields have a name if it is the name of one of them. -/
theorem has_iff {fields : Fields α} {name : String} :
    fields.has name = true ↔ name ∈ names fields := by
  induction fields with
  | nil => simp [has, names]
  | cons field rest ih =>
    obtain ⟨n, v⟩ := field
    by_cases h : name = n
    · simp [has, names, h]
    · have hne : (name == n) = false := beq_false_of_ne h
      rw [has, names] at ih
      rw [has, List.lookup_cons, hne, names, ih, List.map_cons, List.mem_cons]
      simp [h]

/-- The names after writing a field are the old ones and the new one. -/
theorem mem_put {fields : Fields α} {name : String} {value : α} {p : String × α}
    (h : p ∈ fields.put name value) : p = (name, value) ∨ p ∈ fields := by
  induction fields with
  | nil => simpa [put] using h
  | cons field rest ih =>
    obtain ⟨n, v⟩ := field
    simp only [put] at h
    split at h
    · simp only [List.mem_cons] at h ⊢
      rcases h with h | h
      · exact .inl h
      · exact .inr (.inr h)
    · split at h
      · simpa using h
      · rcases List.mem_cons.1 h with h | h
        · exact .inr (List.mem_cons.2 (.inl h))
        · rcases ih h with h | h
          · exact .inl h
          · exact .inr (List.mem_cons.2 (.inr h))

/-- Writing a field keeps canonical fields canonical. -/
theorem sorted_put {fields : Fields α} (h : Sorted fields) (name : String) (value : α) :
    Sorted (fields.put name value) := by
  induction fields with
  | nil => simp [Sorted, put]
  | cons field rest ih =>
    obtain ⟨n, v⟩ := field
    obtain ⟨hn, hrest⟩ := List.pairwise_cons.1 h
    simp only [put]
    split
    · next heq => subst heq; exact List.pairwise_cons.2 ⟨hn, hrest⟩
    · next hne =>
      split
      · next hlt =>
        refine List.pairwise_cons.2 ⟨fun p hp => ?_, h⟩
        rcases List.mem_cons.1 hp with hp | hp
        · subst hp; exact hlt
        · exact String.lt_trans hlt (hn p hp)
      · next hge =>
        refine List.pairwise_cons.2 ⟨fun p hp => ?_, ih hrest⟩
        rcases mem_put hp with hp | hp
        · subst hp
          exact Std.lt_of_le_of_ne (String.not_lt.1 hge) (fun e => hne e.symm)
        · exact hn p hp

/-- Fields built from any content are canonical. -/
theorem sorted_canonical (pairs : Fields α) : Sorted (canonical pairs) := by
  have key : ∀ (ps acc : Fields α), Sorted acc →
      Sorted (ps.foldl (fun fields pair => fields.put pair.1 pair.2) acc) := by
    intro ps
    induction ps with
    | nil => exact fun _ h => h
    | cons p ps ih => exact fun acc h => ih _ (sorted_put h p.1 p.2)
  exact key pairs [] List.Pairwise.nil

/-- Fields built from any content have its names and no others. -/
theorem has_canonical (pairs : Fields α) (name : String) :
    (canonical pairs).has name = true ↔ name ∈ names pairs := by
  have key : ∀ (ps acc : Fields α),
      (ps.foldl (fun fields pair => fields.put pair.1 pair.2) acc).has name = true ↔
        acc.has name = true ∨ name ∈ names ps := by
    intro ps
    induction ps with
    | nil => simp [names]
    | cons p ps ih =>
      intro acc
      rw [List.foldl_cons, ih, has_put, or_assoc]
      simp [names]
  rw [canonical, key]
  simp [has]

/-- Writing a new name adds that field to the others. -/
theorem put_perm {fields : Fields α} {name : String} (h : name ∉ names fields) (value : α) :
    (fields.put name value).Perm ((name, value) :: fields) := by
  induction fields with
  | nil => exact .refl _
  | cons field rest ih =>
    obtain ⟨n, v⟩ := field
    obtain ⟨hne, hrest⟩ : name ≠ n ∧ name ∉ names rest := by simpa [names] using h
    rw [put, if_neg hne]
    split
    · exact .refl _
    · exact ((ih hrest).cons (n, v)).trans (.swap (name, value) (n, v) rest)

/-- Fields built from any content hold nothing else. -/
theorem mem_of_mem_canonical {pairs : Fields α} {p : String × α} (h : p ∈ canonical pairs) :
    p ∈ pairs := by
  have key : ∀ (ps acc : Fields α),
      p ∈ ps.foldl (fun fields pair => fields.put pair.1 pair.2) acc → p ∈ acc ∨ p ∈ ps := by
    intro ps
    induction ps with
    | nil => exact fun _ hmem => .inl hmem
    | cons q ps ih =>
      intro acc hmem
      rcases ih _ hmem with hput | hps
      · rcases mem_put hput with rfl | hacc
        · exact .inr List.mem_cons_self
        · exact .inl hacc
      · exact .inr (List.mem_cons_of_mem _ hps)
  exact (key pairs [] h).resolve_left List.not_mem_nil

/-- Of fields with different names the canonical form is a permutation. -/
theorem canonical_perm {pairs : Fields α} (h : (names pairs).Nodup) :
    (canonical pairs).Perm pairs := by
  have key : ∀ (ps acc : Fields α), (names (acc ++ ps)).Nodup →
      (ps.foldl (fun fields pair => fields.put pair.1 pair.2) acc).Perm (acc ++ ps) := by
    intro ps
    induction ps with
    | nil => intro acc _; rw [List.append_nil]; exact .refl _
    | cons p ps ih =>
      intro acc hacc
      have hmoved : (p :: acc ++ ps).Perm (acc ++ p :: ps) := List.perm_middle.symm
      have hnodup : (names (p :: acc ++ ps)).Nodup := (hmoved.map Prod.fst).symm.nodup hacc
      have hnew : p.1 ∉ names acc := by
        intro hmem
        rw [names, List.cons_append, List.map_cons, List.nodup_cons, List.map_append] at hnodup
        exact hnodup.1 (List.mem_append_left _ hmem)
      have hput : (acc.put p.1 p.2).Perm (p :: acc) := put_perm hnew p.2
      have hput_ps := hput.append_right ps
      exact (ih _ ((hput_ps.map Prod.fst).symm.nodup hnodup)).trans (hput_ps.trans hmoved)
  exact key pairs [] h

/-- Canonical fields name nothing twice. -/
theorem Sorted.nodup_names {fields : Fields α} (h : Sorted fields) : (names fields).Nodup := by
  rw [names, List.Nodup, List.pairwise_map]
  refine List.Pairwise.imp (fun hlt heq => ?_) h
  rw [heq] at hlt
  exact String.lt_irrefl _ hlt

/-- Canonical fields with the same content are equal. -/
theorem Sorted.eq_of_perm {left right : Fields α} (hleft : Sorted left) (hright : Sorted right)
    (h : left.Perm right) : left = right :=
  h.eq_of_pairwise (fun _ _ _ _ hlt hgt => absurd (String.lt_trans hlt hgt) (String.lt_irrefl _))
    hleft hright

/-- In which order different names come makes no difference to the canonical form. -/
theorem canonical_eq_of_perm {left right : Fields α} (hright : Sorted right)
    (h : left.Perm right) : canonical left = right :=
  (sorted_canonical left).eq_of_perm hright
    ((canonical_perm ((h.map Prod.fst).symm.nodup hright.nodup_names)).trans h)

end Fields

end KeywordTable
