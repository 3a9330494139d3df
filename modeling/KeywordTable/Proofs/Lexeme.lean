import KeywordTable.Proofs.Supply.Taking

/-!
# The lexemes of an expression

An expression is a flat text.  Its lexemes are the five marks (blank, comma, the
two parentheses, dot) and the longest stretches between them, so that keywords,
comparison symbols and tokens are one lexeme each: `#n1` and `#n10` differ because
a stretch is never cut.

The key local fact is `scan_append_mark`: a mark cuts the text wherever it stands.
Everything a renderer glues together meets at a mark, so the lexemes of a rendered
text are the lexemes of its parts in order.
-/

namespace KeywordTable

/-- The characters that are lexemes of their own. -/
def isMark (c : Char) : Bool := c == ' ' || c == ',' || c == '(' || c == ')' || c == '.'

/-- Put a character that is no mark in front of scanned lexemes. -/
def glue (c : Char) : List (List Char) → List (List Char)
  | (d :: stretch) :: rest =>
    if isMark d then [c] :: (d :: stretch) :: rest else (c :: d :: stretch) :: rest
  | rest => [c] :: rest

/-- The marks and the longest stretches without a mark. -/
def scan : List Char → List (List Char)
  | [] => []
  | c :: rest => if isMark c then [c] :: scan rest else glue c (scan rest)

/-- The lexemes of a text. -/
def lexemes (text : String) : List String := (scan text.toList).map String.ofList

/-- A mark cuts the text. -/
theorem scan_append_mark (front back : List Char) {mark : Char} (hmark : isMark mark) :
    scan (front ++ mark :: back) = scan front ++ [mark] :: scan back := by
  induction front with
  | nil => simp [scan, hmark]
  | cons c front ih =>
      simp only [List.cons_append, scan, ih]
      by_cases hc : isMark c
      · simp [hc]
      · rw [if_neg hc, if_neg hc]
        rcases scan front with _ | ⟨_ | ⟨d, stretch⟩, rest⟩
        · simp [glue, hmark]
        · simp [glue]
        · by_cases hd : isMark d <;> simp [glue, hd]

/-- A stretch without a mark is one lexeme. -/
theorem scan_stretch {stretch : List Char} (hne : stretch ≠ [])
    (hfree : ∀ c ∈ stretch, isMark c = false) : scan stretch = [stretch] := by
  induction stretch with
  | nil => exact absurd rfl hne
  | cons c rest ih =>
      have hc : isMark c = false := hfree c List.mem_cons_self
      rw [scan, if_neg (by simp [hc])]
      cases rest with
      | nil => rfl
      | cons d rest =>
          have hd : isMark d = false := hfree d (by simp)
          rw [ih (by simp) fun e he => hfree e (List.mem_cons_of_mem _ he)]
          simp [glue, hd]

/-! ### Parts of a text -/

/-- Does the text begin with a mark? -/
def beginsWithMark (text : String) : Bool := text.toList.head?.any isMark

/-- Does the text end in a mark? -/
def endsInMark (text : String) : Bool := text.toList.getLast?.any isMark

/-- A part that begins with a mark keeps its lexemes behind any other. -/
theorem lexemes_append_of_begins {back : String} (h : beginsWithMark back) (front : String) :
    lexemes (front ++ back) = lexemes front ++ lexemes back := by
  unfold beginsWithMark at h
  rcases hback : back.toList with _ | ⟨mark, rest⟩
  · simp [hback] at h
  · have hmark : isMark mark := by simpa [hback] using h
    have hnil := scan_append_mark [] rest hmark
    simp only [List.nil_append] at hnil
    simp [lexemes, hback, scan_append_mark _ _ hmark, hnil, scan]

/-- A part that ends in a mark keeps them in front of any other. -/
theorem lexemes_append_of_ends {front : String} (h : endsInMark front) (back : String) :
    lexemes (front ++ back) = lexemes front ++ lexemes back := by
  unfold endsInMark at h
  rcases List.eq_nil_or_concat front.toList with hfront | ⟨rest, mark, hfront⟩
  · simp [hfront] at h
  · have hmark : isMark mark := by simpa [hfront] using h
    simp [lexemes, hfront, scan_append_mark _ _ hmark, scan]

/-- Texts end in a mark if their last part does. -/
theorem endsInMark_append {back : String} (h : endsInMark back) (front : String) :
    endsInMark (front ++ back) := by
  unfold endsInMark at h ⊢
  rcases List.eq_nil_or_concat back.toList with hback | ⟨rest, mark, hback⟩
  · simp [hback] at h
  · have hmark : isMark mark := by simpa [hback] using h
    simp [hback, ← List.append_assoc, hmark]

/-- What stands between two parts, with a mark at both ends. -/
def IsGap (gap : String) : Prop := beginsWithMark gap ∧ endsInMark gap

instance (gap : String) : Decidable (IsGap gap) := inferInstanceAs (Decidable (_ ∧ _))

/-- Two parts keep their lexemes when a gap stands between them. -/
theorem lexemes_gap {gap : String} (h : IsGap gap) (front back : String) :
    lexemes (front ++ gap ++ back) = lexemes front ++ (lexemes gap ++ lexemes back) := by
  rw [lexemes_append_of_ends (endsInMark_append h.2 front), lexemes_append_of_begins h.1,
    List.append_assoc]

/-- Parts apart by a gap have the lexemes of the parts apart by those of the gap. -/
theorem lexemes_intercalate {gap : String} (h : IsGap gap) (parts : List String) :
    lexemes (gap.intercalate parts) = (lexemes gap).intercalate (parts.map lexemes) := by
  induction parts with
  | nil => simp [lexemes, scan]
  | cons part parts ih =>
      cases parts with
      | nil => simp
      | cons next parts =>
          rw [String.intercalate_cons_cons, lexemes_gap h, ih]
          simp [List.intercalate_cons_cons]

/-! ### Tokens -/

/-- A text without marks is one lexeme. -/
theorem lexemes_stretch {text : String} (hne : text.toList ≠ [])
    (hfree : ∀ c ∈ text.toList, isMark c = false) : lexemes text = [text] := by
  simp [lexemes, scan_stretch hne hfree]

/-- Digits are no marks. -/
theorem isMark_of_mem_toString {place : Nat} {c : Char} (h : c ∈ (toString place).toList) :
    isMark c = false := by
  have hdigit : c.isDigit := by
    rw [Nat.toString_eq_repr, Nat.toList_repr] at h
    exact Nat.isDigit_of_mem_toDigits (by decide) (by decide) h
  by_contra hmark
  simp only [isMark, Bool.or_eq_true, beq_iff_eq, Bool.not_eq_false] at hmark
  rcases hmark with (((rfl | rfl) | rfl) | rfl) | rfl <;> simp at hdigit

/-- A name token is one lexeme. -/
theorem lexemes_nameToken (place : Nat) :
    lexemes (Placeholders.nameToken place) = [Placeholders.nameToken place] := by
  refine lexemes_stretch (by simp [Placeholders.nameToken]) fun c hc => ?_
  rw [Placeholders.nameToken, String.toList_append, List.mem_append] at hc
  rcases hc with hc | hc
  · have hsign : c = '#' ∨ c = 'n' := by simpa using hc
    rcases hsign with rfl | rfl <;> rfl
  · exact isMark_of_mem_toString hc

theorem lexemes_valueToken (place : Nat) :
    lexemes (Placeholders.valueToken place) = [Placeholders.valueToken place] := by
  refine lexemes_stretch (by simp [Placeholders.valueToken]) fun c hc => ?_
  rw [Placeholders.valueToken, String.toList_append, List.mem_append] at hc
  rcases hc with hc | hc
  · have hsign : c = ':' ∨ c = 'v' := by simpa using hc
    rcases hsign with rfl | rfl <;> rfl
  · exact isMark_of_mem_toString hc

end KeywordTable
