import KeywordTable.Proofs.Lexeme

/-!
# How expressions are spelled

The lexemes of each form of text that a renderer writes, given the lexemes of its
parts.  Everything that is said about expressions, whether they read back or which
tokens they mention, goes through these equations and never through characters.
-/

namespace KeywordTable

open Placeholders

/-! ### Tokens and paths -/

/-- A token is no word. -/
theorem nameToken_ne (place : Nat) (word : String) (h : word.toList.head? ≠ some '#') :
    nameToken place ≠ word := by
  rintro rfl
  exact h (by simp [nameToken])

theorem valueToken_ne (place : Nat) (word : String) (h : word.toList.head? ≠ some ':') :
    valueToken place ≠ word := by
  rintro rfl
  exact h (by simp [valueToken])

/-- A token is no word of a table. -/
theorem lookup_nameToken {α : Type} {words : List (String × α)} (place : Nat)
    (h : ∀ entry ∈ words, entry.1.toList.head? ≠ some '#') :
    words.lookup (nameToken place) = none := by
  rw [List.lookup_eq_none_iff]
  intro entry hentry
  simpa using nameToken_ne place entry.1 (h entry hentry)

theorem lookup_valueToken {α : Type} {words : List (String × α)} (place : Nat)
    (h : ∀ entry ∈ words, entry.1.toList.head? ≠ some ':') :
    words.lookup (valueToken place) = none := by
  rw [List.lookup_eq_none_iff]
  intro entry hentry
  simpa using valueToken_ne place entry.1 (h entry hentry)

/-- A path is spelled by its tokens with dots between them. -/
theorem lexemes_internPath (path : AttributePath) (supply : Placeholders) :
    lexemes (internPath path supply).1 =
      ["."].intercalate ((path.names.mapM internName supply).1.map lexemes) :=
  lexemes_intercalate (by decide) _

/-- A path begins with a token. -/
theorem lexemes_internPath_head (path : AttributePath) (supply : Placeholders) :
    ∃ place rest, lexemes (internPath path supply).1 = nameToken place :: rest := by
  rcases hnames : path.names with _ | ⟨name, names⟩
  · exact absurd hnames path.names_ne_nil
  · have hfirst : lexemes (internName name supply).1 = [nameToken (supply.names.idxOf name)] :=
      lexemes_nameToken _
    rw [lexemes_internPath, hnames, List.mapM_cons]
    show ∃ place rest, ["."].intercalate (lexemes (internName name supply).1 ::
      ((names.mapM internName (internName name supply).2).1.map lexemes)) = _
    rw [hfirst]
    cases (names.mapM internName (internName name supply).2).1.map lexemes with
    | nil => exact ⟨_, [], rfl⟩
    | cons next more => exact ⟨_, "." :: ["."].intercalate (next :: more), rfl⟩

/-- Only tokens stand for names. -/
theorem lookup_nameMap_eq_none (supply : Placeholders) {word : String}
    (h : word.toList.head? ≠ some '#') : supply.nameMap.lookup word = none := by
  rw [List.lookup_eq_none_iff]
  intro entry hentry
  obtain ⟨place, hplace, rfl⟩ := List.mem_mapIdx.mp hentry
  simpa using (nameToken_ne place word h).symm

/-- Only tokens stand for values. -/
theorem lookup_valueMap_eq_none (supply : Placeholders) {word : String}
    (h : word.toList.head? ≠ some ':') : supply.valueMap.lookup word = none := by
  rw [List.lookup_eq_none_iff]
  intro entry hentry
  obtain ⟨place, hplace, rfl⟩ := List.mem_mapIdx.mp hentry
  simpa using (valueToken_ne place word h).symm

/-! ### Parts side by side -/

/-- Two parts with a blank between them. -/
theorem lexemes_blank (front back : String) :
    lexemes (front ++ " " ++ back) = lexemes front ++ " " :: lexemes back := by
  have hgap : IsGap " " := by decide
  have hblank : lexemes " " = [" "] := by decide
  rw [lexemes_gap hgap, hblank]
  simp

/-- The text sets two parts apart with a sign between blanks. -/
structure Separates (text sign : String) : Prop where
  gap : IsGap text
  spelled : lexemes text = [" ", sign, " "]

/-- The text opens a function with this name. -/
structure Opens (text name : String) : Prop where
  marked : endsInMark text
  spelled : lexemes text = [name, "("]

/-- The texts that set two parts apart, each with its sign. -/
def separators : List (String × String) :=
  [(" AND ", "AND"), (" BETWEEN ", "BETWEEN"), (" = ", "="), (" + ", "+"), (" - ", "-")]

/-- The texts that open a function, each with its name. -/
def openings : List (String × String) :=
  [("begins_with(", "begins_with"), ("contains(", "contains"),
    ("attribute_exists(", "attribute_exists"), ("attribute_not_exists(", "attribute_not_exists"),
    ("if_not_exists(", "if_not_exists"), ("list_append(", "list_append")]

/-- What stands between two parts is spelled by a sign. -/
theorem separates {text sign : String} (h : (text, sign) ∈ separators) : Separates text sign := by
  have hall : ∀ entry ∈ separators, IsGap entry.1 ∧ lexemes entry.1 = [" ", entry.2, " "] := by
    decide
  exact ⟨(hall _ h).1, (hall _ h).2⟩

/-- What opens a function is spelled by its name. -/
theorem opens {text name : String} (h : (text, name) ∈ openings) : Opens text name := by
  have hall : ∀ entry ∈ openings, endsInMark entry.1 ∧ lexemes entry.1 = [entry.2, "("] := by
    decide
  exact ⟨(hall _ h).1, (hall _ h).2⟩

/-- Two parts with a sign between them. -/
theorem lexemes_sign {gap : String} (sign : String) (h : (gap, sign) ∈ separators)
    (front back : String) :
    lexemes (front ++ gap ++ back) = lexemes front ++ " " :: sign :: " " :: lexemes back := by
  rw [lexemes_gap (separates h).gap, (separates h).spelled]
  simp

/-! ### Conditions -/

/-- The symbol of a comparison is one lexeme. -/
theorem Comparison.lexemes_symbol (comparison : Comparison) :
    lexemes comparison.symbol = [comparison.symbol] := by
  cases comparison <;> decide

/-- A comparison is spelled by its path, its symbol and its value. -/
theorem lexemes_compare (path value : String) (comparison : Comparison) :
    lexemes (path ++ " " ++ comparison.symbol ++ " " ++ value) =
      lexemes path ++ " " :: comparison.symbol :: " " :: lexemes value := by
  rw [lexemes_blank, lexemes_blank, comparison.lexemes_symbol]
  simp

/-- A range is spelled by its path and its two ends, apart by words. -/
theorem lexemes_between (path low high : String) :
    lexemes (path ++ " BETWEEN " ++ low ++ " AND " ++ high) =
      lexemes path ++ " " :: "BETWEEN" :: " " ::
        (lexemes low ++ " " :: "AND" :: " " :: lexemes high) := by
  have hand : (" AND ", "AND") ∈ separators := by decide
  have hbetween : (" BETWEEN ", "BETWEEN") ∈ separators := by decide
  rw [lexemes_sign _ hand, lexemes_sign _ hbetween]
  simp

/-- A list of values is spelled in parentheses behind its path. -/
theorem lexemes_among (path values : String) :
    lexemes (path ++ " IN (" ++ values ++ ")") =
      lexemes path ++ " " :: "IN" :: " " :: "(" :: (lexemes values ++ [")"]) := by
  have hin : IsGap " IN (" := by decide
  have hclose : beginsWithMark ")" := by decide
  have hspellings : lexemes " IN (" = [" ", "IN", " ", "("] ∧ lexemes ")" = [")"] := by decide
  rw [lexemes_append_of_begins hclose, lexemes_gap hin, hspellings.1, hspellings.2]
  simp

/-- A part between a text that ends in a mark and a parenthesis. -/
theorem lexemes_closed {front : String} (hfront : endsInMark front) (text : String) :
    lexemes (front ++ text ++ ")") = lexemes front ++ (lexemes text ++ [")"]) := by
  have hclose : beginsWithMark ")" := by decide
  have hspelling : lexemes ")" = [")"] := by decide
  rw [lexemes_append_of_begins hclose, lexemes_append_of_ends hfront, hspelling]
  simp

/-- A function of one argument. -/
theorem lexemes_presence {opening : String} (name : String) (h : (opening, name) ∈ openings)
    (path : String) :
    lexemes (opening ++ path ++ ")") = name :: "(" :: (lexemes path ++ [")"]) := by
  rw [lexemes_closed (opens h).marked, (opens h).spelled]
  rfl

/-- A function of two arguments. -/
theorem lexemes_function {opening : String} (name : String) (h : (opening, name) ∈ openings)
    (path value : String) :
    lexemes (opening ++ path ++ ", " ++ value ++ ")") =
      name :: "(" :: (lexemes path ++ "," :: " " :: (lexemes value ++ [")"])) := by
  have hcomma : IsGap ", " := by decide
  have hspelling : lexemes ", " = [",", " "] := by decide
  have hfront : lexemes (opening ++ (path ++ ", " ++ value) ++ ")") =
      lexemes opening ++ (lexemes (path ++ ", " ++ value) ++ [")"]) :=
    lexemes_closed (opens h).marked _
  rw [← String.append_assoc, ← String.append_assoc] at hfront
  rw [hfront, lexemes_gap hcomma, hspelling, (opens h).spelled]
  simp

/-- A conjunction is spelled by its parts with `AND` between them. -/
theorem lexemes_conjunction (texts : List String) :
    lexemes (" AND ".intercalate texts) =
      [" ", "AND", " "].intercalate (texts.map lexemes) := by
  have hand : Separates " AND " "AND" := separates (by decide)
  rw [lexemes_intercalate hand.gap, hand.spelled]

/-- Parentheses are spelled around what they enclose. -/
theorem lexemes_enclosed (text : String) :
    lexemes ("(" ++ text ++ ")") = "(" :: (lexemes text ++ [")"]) := by
  have hmarked : endsInMark "(" := by decide
  have hspelling : lexemes "(" = ["("] := by decide
  rw [lexemes_closed hmarked, hspelling]
  rfl

/-! ### Clauses -/

/-- A clause is spelled by its word and its changes with commas between them. -/
theorem lexemes_clause (clause : Clause) (changes : List String) :
    lexemes (clause.word ++ " " ++ ", ".intercalate changes) =
      clause.word :: " " :: [",", " "].intercalate (changes.map lexemes) := by
  have hcomma : lexemes ", " = [",", " "] := by decide
  have hword : lexemes clause.word = [clause.word] := by cases clause <;> decide
  rw [lexemes_blank, lexemes_intercalate (by decide), hcomma, hword]
  simp

end KeywordTable
