import KeywordTable.Proofs.Spelling

/-!
# Reading expressions back

Expressions are read back from the left, lexeme by lexeme, with the two maps that
are sent along.  A `Reading` takes something off the front and hands back what
follows.  `Reads` says that it takes exactly a given spelling, whatever follows
(as far as `ends` allows), and `Writes` that this is so for everything a renderer
writes, read with the maps of any later state of its supply.

Lists whose items stand apart by a separator are read by one combinator,
`separated`; `reads_separated` is the one induction over such lists.
-/

namespace KeywordTable

open Placeholders

/-- A way to take something off the front of lexemes. -/
abbrev Reading (α : Type) := List String → Option (α × List String)

/-- Read at most `count` items, as long as the separator follows. -/
def separatedWithin {α : Type} (separator : List String) (read : Reading α) :
    Nat → Reading (List α)
  | 0, _ => none
  | count + 1, spelling => do
    let (x, rest) ← read spelling
    match rest.dropPrefix? separator with
    | some rest => do
      let (xs, rest) ← separatedWithin separator read count rest
      return (x :: xs, rest)
    | none => return ([x], rest)

/-- Read items as long as the separator follows.  Of these there can be no more
than lexemes. -/
def separated {α : Type} (separator : List String) (read : Reading α) : Reading (List α) :=
  fun spelling => separatedWithin separator read (spelling.length + 1) spelling

/-- The reading takes exactly this spelling off the front and makes `x` of it, if
what follows ends the spelling. -/
def Reads {α : Type} (ends : List String → Prop) (read : Reading α) (spelling : List String)
    (x : α) : Prop :=
  ∀ rest, ends rest → read (spelling ++ rest) = some (x, rest)

/-- Nothing has to end the spelling. -/
def Anything : List String → Prop := fun _ => True

/-- What follows does not begin with the separator. -/
def EndsBefore (separator : List String) : List String → Prop := fun rest => ¬ separator <+: rest

/-- What reads back in front of more texts reads back in front of fewer. -/
theorem Reads.mono {α : Type} {ends ends' : List String → Prop} {read : Reading α}
    {spelling : List String} {x : α} (h : Reads ends read spelling x)
    (hends : ∀ rest, ends' rest → ends rest) : Reads ends' read spelling x :=
  fun rest hrest => h rest (hends rest hrest)

/-- What stands in front is dropped. -/
theorem dropPrefix?_append (front rest : List String) :
    (front ++ rest).dropPrefix? front = some rest :=
  List.dropPrefix?_append_of_beq rest (BEq.refl front)

/-- Nothing is dropped in front of something else. -/
theorem dropPrefix?_eq_none {front rest : List String} (h : EndsBefore front rest) :
    rest.dropPrefix? front = none := by
  refine Option.eq_none_iff_forall_ne_some.mpr fun back hback => h ?_
  obtain ⟨front', rfl, hfront⟩ := List.dropPrefix?_eq_some_iff.mp hback
  rw [eq_of_beq hfront]
  exact List.prefix_append _ _

/-! ### Separated lists -/

/-- Parts with a separator between them read back one after the other, if no more of them stand
there than are counted. -/
theorem separatedWithin_intercalate {α : Type} {separator : List String} {read : Reading α}
    {ends : List String → Prop} (hgap : ∀ rest, ends (separator ++ rest))
    {spellings : List (List String)} {xs : List α}
    (hall : List.Forall₂ (Reads ends read) spellings xs) (hne : xs ≠ [])
    {count : Nat} (hcount : xs.length ≤ count) {rest : List String}
    (hends : ends rest) (hstop : EndsBefore separator rest) :
    separatedWithin separator read count (separator.intercalate spellings ++ rest) =
      some (xs, rest) := by
  induction hall generalizing count with
  | nil => exact absurd rfl hne
  | @cons spelling x spellings xs hread hall ih =>
      obtain ⟨count, rfl⟩ : ∃ m, count = m + 1 := ⟨count - 1, by simp at hcount; omega⟩
      cases hall with
      | nil =>
          rw [List.intercalate_singleton, separatedWithin, hread rest hends]
          simp [dropPrefix?_eq_none hstop]
      | @cons next y spellings xs hnext hall =>
          have hmore := @ih (by simp) count (by simpa using hcount)
          rw [List.intercalate_cons_cons, List.append_assoc, List.append_assoc, separatedWithin,
            hread _ (hgap _)]
          simp [dropPrefix?_append, hmore]

/-- A list is no longer than its spelling and one. -/
theorem length_le_intercalate {separator : List String} (hsep : separator ≠ [])
    (spellings : List (List String)) :
    spellings.length ≤ (separator.intercalate spellings).length + 1 := by
  have hpos : 0 < separator.length := List.length_pos_iff.mpr hsep
  induction spellings with
  | nil => simp
  | cons spelling spellings ih =>
      cases spellings with
      | nil => simp
      | cons next spellings =>
          rw [List.intercalate_cons_cons]
          simp only [List.length_append, List.length_cons] at ih ⊢
          omega

/-- **Separated lists read back.**  Items that read back one by one, whatever stands
behind a separator, read back as a list. -/
theorem reads_separated {α : Type} (separator : List String) {read : Reading α}
    {ends : List String → Prop} (hsep : separator ≠ [])
    (hgap : ∀ rest, ends (separator ++ rest)) {spellings : List (List String)} {xs : List α}
    (hall : List.Forall₂ (Reads ends read) spellings xs) (hne : xs ≠ []) :
    Reads (fun rest => ends rest ∧ EndsBefore separator rest) (separated separator read)
      (separator.intercalate spellings) xs := by
  intro rest hrest
  refine separatedWithin_intercalate hgap hall hne ?_ hrest.1 hrest.2
  have hlength := length_le_intercalate hsep spellings
  rw [← hall.length_eq, List.length_append]
  omega

/-- A part of a separated list is no longer than the whole. -/
theorem length_le_of_mem_intercalate {separator spelling : List String}
    {spellings : List (List String)} (h : spelling ∈ spellings) :
    spelling.length ≤ (separator.intercalate spellings).length := by
  induction spellings with
  | nil => simp at h
  | cons first spellings ih =>
      cases spellings with
      | nil =>
          rw [List.mem_singleton.mp h]
          simp
      | cons next spellings =>
          rw [List.intercalate_cons_cons, List.length_append, List.length_append]
          rcases List.mem_cons.mp h with rfl | h
          · omega
          · have := ih h
            omega

/-! ### Names, paths and values -/

/-- Read a token as the name it stands for. -/
def readName (names : NameMap) : Reading String
  | [] => none
  | token :: rest => (names.lookup token).map (·, rest)

/-- Read tokens apart by dots as a path. -/
def readPath (names : NameMap) : Reading AttributePath := fun spelling => do
  let (parts, rest) ← separated ["."] (readName names) spelling
  let path ← (AttributePath.ofNames parts).toOption
  return (path, rest)

/-- Read a token as the value it stands for. -/
def readValue (values : ValueMap) : Reading Value
  | [] => none
  | token :: rest => (values.lookup token).map (·, rest)

/-- Whatever the renderer writes is read as `x`, as long as the supply of the
reader is a later state of the one it was written with. -/
def Writes {α : Type} (later : Placeholders) (ends : List String → Prop)
    (run : Interning String) (read : Reading α) (x : α) : Prop :=
  ∀ supply, (run supply).2.Reaches later → Reads ends read (lexemes (run supply).1) x

variable {later : Placeholders}

/-- The token of a name reads back as the name. -/
theorem writes_internName (name : String) :
    Writes later Anything (internName name) (readName later.nameMap) name := by
  intro supply hlater rest _
  have hlookup := lookup_internName hlater
  have htoken : lexemes (internName name supply).1 = [(internName name supply).1] :=
    lexemes_nameToken _
  simp [htoken, readName, hlookup]

theorem writes_internValue (value : Value) :
    Writes later Anything (internValue value) (readValue later.valueMap) value := by
  intro supply hlater rest _
  have hlookup := lookup_internValue hlater
  have htoken : lexemes (internValue value supply).1 = [(internValue value supply).1] :=
    lexemes_valueToken _
  simp [htoken, readValue, hlookup]

/-- What holds of every result with the maps of any later state holds of a list of
results with those of the last state. -/
theorem forall₂_mapM {α β : Type} {Related : β → α → Prop} {run : α → Interning β}
    (hgrows : ∀ x, Grows (run x))
    (h : ∀ x supply, (run x supply).2.Reaches later → Related (run x supply).1 x) (xs : List α)
    (supply : Placeholders) (hlater : (xs.mapM run supply).2.Reaches later) :
    List.Forall₂ Related (xs.mapM run supply).1 xs := by
  induction xs generalizing supply with
  | nil => exact List.Forall₂.nil
  | cons x xs ih =>
      rw [List.mapM_cons] at hlater ⊢
      have htail := grows_mapM hgrows xs (run x supply).2
      exact List.Forall₂.cons (h x supply (htail.trans hlater)) (ih _ hlater)

/-- Texts written one after the other are read one by one. -/
theorem reads_mapM {α : Type} {ends : List String → Prop} {run : α → Interning String}
    {read : Reading α} (hgrows : ∀ x, Grows (run x))
    (hwrites : ∀ x, Writes later ends (run x) read x) (xs : List α) (supply : Placeholders)
    (hlater : (xs.mapM run supply).2.Reaches later) :
    List.Forall₂ (Reads ends read) ((xs.mapM run supply).1.map lexemes) xs := by
  rw [List.forall₂_map_left_iff]
  exact forall₂_mapM hgrows (fun x supply hreach => hwrites x supply hreach) xs supply hlater

/-- The texts of values are tokens. -/
theorem exists_valueToken_of_mem {operands : List Value} {supply : Placeholders} {text : String}
    (h : text ∈ (operands.mapM internValue supply).1) : ∃ place, text = valueToken place := by
  induction operands generalizing supply with
  | nil => exact absurd h List.not_mem_nil
  | cons operand operands ih =>
      rw [List.mapM_cons] at h
      rcases List.mem_cons.mp h with h | h
      · exact ⟨_, h⟩
      · exact ih h

/-- The tokens of a path read back as the path, unless another dot follows. -/
theorem writes_internPath (path : AttributePath) :
    Writes later (EndsBefore ["."]) (internPath path) (readPath later.nameMap) path := by
  intro supply hlater rest hends
  have hnames := reads_mapM grows_internName (@writes_internName later) path.names supply hlater
  have hread := reads_separated ["."] (by simp) (fun _ => trivial) hnames path.names_ne_nil
  rw [lexemes_internPath, readPath, hread rest ⟨trivial, hends⟩]
  simp [AttributePath.ofNames_names, Except.toOption]

/-! ### Functions -/

/-- Read a path in parentheses. -/
def readArgument (names : NameMap) : Reading AttributePath := fun spelling => do
  let rest ← spelling.dropPrefix? ["("]
  let (path, rest) ← readPath names rest
  let rest ← rest.dropPrefix? [")"]
  return (path, rest)

/-- Read a path and a value in parentheses. -/
def readArguments (names : NameMap) (values : ValueMap) : Reading (AttributePath × Value) :=
  fun spelling => do
    let rest ← spelling.dropPrefix? ["("]
    let (path, rest) ← readPath names rest
    let rest ← rest.dropPrefix? [",", " "]
    let (value, rest) ← readValue values rest
    let rest ← rest.dropPrefix? [")"]
    return ((path, value), rest)

/-- A path in parentheses reads back. -/
theorem reads_argument {spelling : List String} {path : AttributePath}
    (hpath : Reads (EndsBefore ["."]) (readPath later.nameMap) spelling path) :
    Reads Anything (readArgument later.nameMap) ("(" :: (spelling ++ [")"])) path := by
  intro rest _
  have hread := hpath (")" :: rest) (by simp [EndsBefore])
  simp [readArgument, List.dropPrefix?, hread]

/-- A path and a value in parentheses read back. -/
theorem reads_arguments {spelling valueSpelling : List String} {path : AttributePath}
    {value : Value} (hpath : Reads (EndsBefore ["."]) (readPath later.nameMap) spelling path)
    (hvalue : Reads Anything (readValue later.valueMap) valueSpelling value) :
    Reads Anything (readArguments later.nameMap later.valueMap)
      ("(" :: (spelling ++ "," :: " " :: (valueSpelling ++ [")"]))) (path, value) := by
  intro rest _
  have hread := hpath ("," :: " " :: (valueSpelling ++ ")" :: rest)) (by simp [EndsBefore])
  simp [readArguments, List.dropPrefix?, hread, hvalue _ trivial]

end KeywordTable
