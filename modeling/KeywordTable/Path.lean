import KeywordTable.Fault

/-!
# Attribute paths

A path leads to an attribute through nested maps: one name a level, outermost
first.  In a keyword the names are joined by the separator, two underscores, so
a name is neither empty nor contains the separator.  Reading a keyword cuts it
at every separator from the left; a name may end in an underscore, and in a run
of three the first two are the separator.

Splitting and joining work on characters; `join_split` says that a cut loses
nothing.
-/

namespace KeywordTable

/-- What joins the names of a path in a keyword. -/
def separator : String := "__"

/-- Do two underscores stand side by side? -/
def hasSeparator : List Char → Bool
  | '_' :: '_' :: _ => true
  | _ :: rest => hasSeparator rest
  | [] => false

/-- Put a character in front of the first piece. -/
def extendFirst (c : Char) : List (List Char) → List (List Char)
  | [] => [[c]]
  | piece :: pieces => (c :: piece) :: pieces

/-- Cut at every separator, from the left and without overlap. -/
def splitAtSeparators : List Char → List (List Char)
  | '_' :: '_' :: rest => [] :: splitAtSeparators rest
  | c :: rest => extendFirst c (splitAtSeparators rest)
  | [] => [[]]

/-- Put the pieces one after the other with a separator between them. -/
def joinWithSeparators : List (List Char) → List Char
  | [] => []
  | [piece] => piece
  | piece :: pieces => piece ++ '_' :: '_' :: joinWithSeparators pieces

/-- Every text has at least one piece. -/
theorem splitAtSeparators_ne_nil (cs : List Char) : splitAtSeparators cs ≠ [] := by
  fun_cases splitAtSeparators cs with
  | case1 => simp
  | case2 c rest =>
    cases h : splitAtSeparators rest <;> simp [extendFirst]
  | case3 => simp

/-- Joining the pieces gives the text back. -/
theorem join_split (cs : List Char) : joinWithSeparators (splitAtSeparators cs) = cs := by
  fun_induction splitAtSeparators cs with
  | case1 rest ih =>
    cases h : splitAtSeparators rest with
    | nil => exact absurd h (splitAtSeparators_ne_nil rest)
    | cons p ps => rw [h] at ih; simp [joinWithSeparators, ih]
  | case2 c rest _ ih =>
    cases h : splitAtSeparators rest with
    | nil => exact absurd h (splitAtSeparators_ne_nil rest)
    | cons p ps =>
      rw [h] at ih
      cases ps <;> simp_all [extendFirst, joinWithSeparators]
  | case3 => rfl

/-- A name that a path may contain: not empty and free of separators. -/
def LegalName (name : String) : Prop := name ≠ "" ∧ hasSeparator name.toList = false

instance (name : String) : Decidable (LegalName name) :=
  inferInstanceAs (Decidable (_ ∧ _))

/-- The way to an attribute, outermost name first. -/
structure AttributePath where
  names : List String
  names_ne_nil : names ≠ []
  legal : ∀ name ∈ names, LegalName name
deriving DecidableEq

namespace AttributePath

/-- The path with these names, or the fault that shows them joined. -/
def ofNames (names : List String) : Except Fault AttributePath :=
  if h : names ≠ [] ∧ ∀ name ∈ names, LegalName name then .ok ⟨names, h.1, h.2⟩
  else .error (.invalidPath (separator.intercalate names))

/-- The names of a path make the path again. -/
theorem ofNames_names (path : AttributePath) : ofNames path.names = .ok path := by
  rw [ofNames, dif_pos ⟨path.names_ne_nil, path.legal⟩]

/-- Read a path whose names are joined by separators. -/
def parse (text : String) : Except Fault AttributePath :=
  ofNames ((splitAtSeparators text.toList).map String.ofList)

/-- The outermost name. -/
def root (path : AttributePath) : String := path.names.head path.names_ne_nil

/-- Does the path name an attribute of the item itself? -/
def isTopLevel (path : AttributePath) : Bool := path.names.length = 1

/-- The path as messages show it. -/
def display (path : AttributePath) : String := ".".intercalate path.names

/-- Paths are ordered name by name, a shorter path before its extensions. -/
protected def compare (left right : AttributePath) : Ordering :=
  List.compareLex Ord.compare left.names right.names

end AttributePath

end KeywordTable
