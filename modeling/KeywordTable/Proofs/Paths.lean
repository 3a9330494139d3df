import KeywordTable.Path
import Mathlib.Data.List.Basic

/-!
# Which paths a text can spell

Reading a path cuts a text at its separators from the left and without overlap.  In a run
of three underscores the first two are the separator, so what stands in front of a cut never
ends in an underscore.  `CanonicalNames` says this of a list of names: all of them are legal,
and no name but the last ends in an underscore.

These are exactly the lists that texts spell.  What is read is canonical
(`AttributePath.canonical_of_parse`), and a canonical path is read back from its names joined
by separators (`AttributePath.parse_joined`), so the two undo each other on canonical paths
(`AttributePath.reads_what_is_joined`).  The local fact behind reading back is
`splitAtSeparators_append`: the cut behind a piece stands where the piece ends, because
neither the piece nor its last character can begin an earlier one.
-/

namespace KeywordTable

/-! ### Where a text is cut -/

/-- A separator begins where two underscores stand side by side, and only there. -/
theorem hasSeparator_cons_eq_false {c : Char} {cs : List Char} :
    hasSeparator (c :: cs) = false ↔
      ¬ (c = '_' ∧ cs.head? = some '_') ∧ hasSeparator cs = false := by
  rw [hasSeparator.eq_def]
  cases cs with
  | nil => split <;> simp_all
  | cons d cs => split <;> grind

/-- A character that begins no separator belongs to the first piece. -/
theorem splitAtSeparators_cons {c : Char} {cs : List Char}
    (h : ¬ (c = '_' ∧ cs.head? = some '_')) :
    splitAtSeparators (c :: cs) = extendFirst c (splitAtSeparators cs) := by
  rw [splitAtSeparators.eq_def]
  split <;> grind

/-- A text without a separator is one piece. -/
theorem splitAtSeparators_piece {piece : List Char} (h : hasSeparator piece = false) :
    splitAtSeparators piece = [piece] := by
  induction piece with
  | nil => rfl
  | cons c piece ih =>
      obtain ⟨hc, hpiece⟩ := hasSeparator_cons_eq_false.mp h
      rw [splitAtSeparators_cons hc, ih hpiece, extendFirst]

/-- **The first cut.**  A separator behind a piece cuts the text there, unless the piece ends
in an underscore: that one would be part of an earlier separator. -/
theorem splitAtSeparators_append {piece : List Char} (hpiece : hasSeparator piece = false)
    (hlast : piece.getLast? ≠ some '_') (rest : List Char) :
    splitAtSeparators (piece ++ '_' :: '_' :: rest) = piece :: splitAtSeparators rest := by
  induction piece with
  | nil => rfl
  | cons c piece ih =>
      obtain ⟨hc, htail⟩ := hasSeparator_cons_eq_false.mp hpiece
      rw [List.cons_append]
      cases piece with
      | nil =>
          have hne : ¬ (c = '_' ∧ ('_' :: '_' :: rest).head? = some '_') := by
            rintro ⟨rfl, _⟩
            exact hlast rfl
          rw [List.nil_append, splitAtSeparators_cons hne]
          rfl
      | cons d piece =>
          have hne : ¬ (c = '_' ∧ ((d :: piece) ++ '_' :: '_' :: rest).head? = some '_') := hc
          have hlast' : (d :: piece).getLast? ≠ some '_' := by
            rwa [List.getLast?_cons_cons] at hlast
          rw [splitAtSeparators_cons hne, ih htail hlast', extendFirst]

/-- Nothing stands in front of a cut only where the text begins with a separator. -/
theorem exists_of_split_nil {cs next : List Char} {pieces : List (List Char)}
    (h : splitAtSeparators cs = [] :: next :: pieces) : ∃ rest, cs = '_' :: '_' :: rest := by
  revert h
  fun_cases splitAtSeparators cs with
  | case1 rest => exact fun _ => ⟨rest, rfl⟩
  | case2 c rest => cases splitAtSeparators rest <;> simp [extendFirst]
  | case3 => simp

/-- **No piece in front of a cut ends in an underscore**: the cut would stand one character
earlier. -/
theorem getLast?_ne_of_mem_split (cs : List Char) :
    ∀ piece ∈ (splitAtSeparators cs).dropLast, piece.getLast? ≠ some '_' := by
  fun_induction splitAtSeparators cs with
  | case1 rest ih =>
      rw [List.dropLast_cons_of_ne_nil (splitAtSeparators_ne_nil rest)]
      intro piece hpiece
      rcases List.mem_cons.mp hpiece with rfl | hpiece
      · simp
      · exact ih piece hpiece
  | case2 c rest hc ih =>
      cases hsplit : splitAtSeparators rest with
      | nil => exact absurd hsplit (splitAtSeparators_ne_nil rest)
      | cons first pieces =>
          rw [hsplit] at ih
          rw [extendFirst]
          cases pieces with
          | nil => simp
          | cons next pieces =>
              rw [List.dropLast_cons_of_ne_nil (List.cons_ne_nil _ _)] at ih ⊢
              intro piece hpiece
              rcases List.mem_cons.mp hpiece with rfl | hpiece
              · cases first with
                | nil =>
                    obtain ⟨tail, rfl⟩ := exists_of_split_nil hsplit
                    intro hlast
                    exact hc ('_' :: tail) (Option.some.inj hlast) rfl
                | cons d first =>
                    rw [List.getLast?_cons_cons]
                    exact ih _ List.mem_cons_self
              · exact ih piece (List.mem_cons_of_mem _ hpiece)
  | case3 => simp

/-! ### Canonical names -/

/-- Names as a text can spell them: each may stand in a path, and only the last may end in an
underscore. -/
structure CanonicalNames (names : List String) : Prop where
  names_ne_nil : names ≠ []
  legal : ∀ name ∈ names, LegalName name
  inner : ∀ name ∈ names.dropLast, name.toList.getLast? ≠ some '_'

/-- The names behind the first are canonical. -/
theorem CanonicalNames.tail {name next : String} {names : List String}
    (h : CanonicalNames (name :: next :: names)) : CanonicalNames (next :: names) where
  names_ne_nil := List.cons_ne_nil _ _
  legal other hother := h.legal other (List.mem_cons_of_mem _ hother)
  inner other hother := by
    refine h.inner other ?_
    rw [List.dropLast_cons_of_ne_nil (List.cons_ne_nil _ _)]
    exact List.mem_cons_of_mem _ hother

/-- The characters of joined names are the joined characters. -/
theorem toList_joined (names : List String) :
    (separator.intercalate names).toList = joinWithSeparators (names.map String.toList) := by
  induction names with
  | nil => rfl
  | cons name names ih =>
      cases names with
      | nil => simp [joinWithSeparators]
      | cons next names =>
          rw [String.intercalate_cons_cons, String.toList_append, String.toList_append, ih]
          simp [separator, joinWithSeparators]

/-- Canonical names are cut apart where they were joined. -/
theorem CanonicalNames.split_join {names : List String} (h : CanonicalNames names) :
    splitAtSeparators (joinWithSeparators (names.map String.toList)) =
      names.map String.toList := by
  induction names with
  | nil => exact absurd rfl h.names_ne_nil
  | cons name names ih =>
      have hname : hasSeparator name.toList = false := (h.legal name List.mem_cons_self).2
      cases names with
      | nil => exact splitAtSeparators_piece hname
      | cons next names =>
          have hlast : name.toList.getLast? ≠ some '_' := h.inner name List.mem_cons_self
          have hrest := ih h.tail
          simp only [List.map_cons, joinWithSeparators] at hrest ⊢
          rw [splitAtSeparators_append hname hlast, hrest]

namespace AttributePath

variable {path : AttributePath} {text : String}

/-- The text that the names of a path are joined to. -/
def joined (path : AttributePath) : String := separator.intercalate path.names

/-- A path of one name is joined to that name. -/
theorem joined_of_names {name : String} (h : path.names = [name]) : path.joined = name := by
  rw [joined, h, String.intercalate_singleton]

/-- A path has the names that it was made of. -/
theorem names_of_ofNames {names : List String} (h : ofNames names = .ok path) :
    path.names = names := by
  unfold ofNames at h
  split at h
  · cases h
    rfl
  · cases h

/-- **A canonical path is read back** from its names joined by separators. -/
theorem parse_joined (h : CanonicalNames path.names) : parse path.joined = .ok path := by
  have hnames : (splitAtSeparators path.joined.toList).map String.ofList = path.names := by
    rw [joined, toList_joined, h.split_join, List.map_map]
    simp
  rw [parse, hnames, ofNames_names]

/-- A legal name spells the path to the attribute of that name. -/
theorem exists_parse_name {name : String} (h : LegalName name) :
    ∃ path, parse name = .ok path ∧ path.names = [name] := by
  have hlegal : ∀ other ∈ [name], LegalName other := fun other hother =>
    List.mem_singleton.mp hother ▸ h
  let path : AttributePath := ⟨[name], List.cons_ne_nil _ _, hlegal⟩
  have hcanonical : CanonicalNames path.names :=
    ⟨List.cons_ne_nil _ _, hlegal, fun other hother => absurd hother List.not_mem_nil⟩
  have hparse := parse_joined hcanonical
  rw [joined_of_names rfl] at hparse
  exact ⟨path, hparse, rfl⟩

/-- Nothing of a text is lost in reading it. -/
theorem joined_of_parse (h : parse text = .ok path) : path.joined = text := by
  apply String.toList_injective
  rw [joined, toList_joined, names_of_ofNames h, List.map_map]
  simp [join_split]

/-- **What is read is canonical.** -/
theorem canonical_of_parse (h : parse text = .ok path) : CanonicalNames path.names where
  names_ne_nil := path.names_ne_nil
  legal := path.legal
  inner name hname := by
    rw [names_of_ofNames h, ← List.map_dropLast] at hname
    obtain ⟨piece, hpiece, rfl⟩ := List.mem_map.mp hname
    rw [String.toList_ofList]
    exact getLast?_ne_of_mem_split _ piece hpiece

/-- The texts that a path is read from: the one that its names join to, if they are canonical. -/
theorem parse_eq_ok_iff :
    parse text = .ok path ↔ CanonicalNames path.names ∧ path.joined = text := by
  constructor
  · intro h
    exact ⟨canonical_of_parse h, joined_of_parse h⟩
  · rintro ⟨hcanonical, rfl⟩
    exact parse_joined hcanonical

/-- A text that is no path is shown as it is: joining its pieces gives it back. -/
theorem fault_of_parse {fault : Fault} (h : parse text = .error fault) :
    fault = .invalidPath text := by
  unfold parse ofNames at h
  split at h
  · cases h
  · cases h
    refine congrArg Fault.invalidPath (String.toList_injective ?_)
    rw [toList_joined, List.map_map]
    simp [join_split]

/-- How reading a path and joining its names undo each other. -/
structure ReadsWhatIsJoined : Prop where
  /-- A text is read as the path that is canonical and joins to it. -/
  read_iff : ∀ text path,
    parse text = .ok path ↔ CanonicalNames path.names ∧ path.joined = text
  /-- A text is refused if no canonical path joins to it; the fault shows it unchanged. -/
  refused_iff : ∀ text fault,
    parse text = .error fault ↔
      fault = .invalidPath text ∧
        ∀ path : AttributePath, CanonicalNames path.names → path.joined ≠ text
  /-- Of the names that make a path, exactly the canonical ones are read back. -/
  back_iff : ∀ names path, ofNames names = .ok path →
    (parse (separator.intercalate names) = .ok path ↔ CanonicalNames names)
  /-- No two texts are read as the same path. -/
  injective : ∀ text other path, parse text = .ok path → parse other = .ok path → text = other

/-- **Reading and joining are inverse on the canonical paths** and on no others. -/
theorem reads_what_is_joined : ReadsWhatIsJoined where
  read_iff _ _ := parse_eq_ok_iff
  refused_iff text fault := by
    constructor
    · intro h
      refine ⟨fault_of_parse h, fun path hcanonical hjoined => ?_⟩
      rw [parse_eq_ok_iff.mpr ⟨hcanonical, hjoined⟩] at h
      cases h
    · rintro ⟨rfl, hnone⟩
      cases hparse : parse text with
      | ok path => exact absurd (joined_of_parse hparse) (hnone path (canonical_of_parse hparse))
      | error fault => rw [fault_of_parse hparse]
  back_iff names path h := by
    rw [← names_of_ofNames h]
    exact parse_eq_ok_iff.trans (and_iff_left rfl)
  injective text other path h hother := by
    rw [← joined_of_parse h, joined_of_parse hother]

/-- A name that ends in an underscore may stand in front of others, but is not read there. -/
example : (ofNames ["a_", "b"]).toOption.map names = some ["a_", "b"] ∧
    (parse "a___b").toOption.map names = some ["a", "_b"] := by
  decide

end AttributePath

end KeywordTable
