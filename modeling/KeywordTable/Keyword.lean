import KeywordTable.Path

/-!
# Keywords

A keyword names an attribute and says what is to be done with it: the path,
then, after one more separator, an operation's token.  Without a token the
default operation is meant.

The token is what follows the **last** separator, where of a run of underscores
the last two count; the path in front of it is then cut from the left, as every
path is.  So `a___eq` asks for the attribute `a_`, although cutting the whole
keyword from the left would give `a` and `_eq`.
-/

namespace KeywordTable

/-- Operations that a keyword may end in. -/
class Operation (κ : Type) where
  /-- Every operation, each once. -/
  all : List κ
  /-- How a keyword spells the operation. -/
  token : κ → String
  /-- What a keyword without a token means. -/
  fallback : κ

/-- The operation with this spelling. -/
def Operation.ofToken? (κ : Type) [Operation κ] (token : String) : Option κ :=
  (Operation.all (κ := κ)).find? fun operation => Operation.token operation == token

/-- The text in front of the last separator and the text behind it. -/
def cutAtLastSeparator : List Char → Option (List Char × List Char)
  | [] => none
  | c :: rest =>
    match cutAtLastSeparator rest with
    | some (front, back) => some (c :: front, back)
    | none =>
      match c, rest with
      | '_', '_' :: back => some ([], back)
      | _, _ => none

/-- A cut loses nothing but the separator. -/
theorem eq_of_cutAtLastSeparator {cs front back : List Char}
    (h : cutAtLastSeparator cs = some (front, back)) : cs = front ++ '_' :: '_' :: back := by
  induction cs generalizing front back with
  | nil => simp [cutAtLastSeparator] at h
  | cons c rest ih =>
    simp only [cutAtLastSeparator] at h
    split at h
    · next f b hcut =>
      obtain ⟨rfl, rfl⟩ := by simpa using h
      rw [ih hcut]; rfl
    · split at h
      · obtain ⟨rfl, rfl⟩ := by simpa using h
        rfl
      · simp at h

/-- There is a cut wherever there is a separator. -/
theorem cutAtLastSeparator_isSome (cs : List Char) :
    (cutAtLastSeparator cs).isSome = hasSeparator cs := by
  induction cs with
  | nil => rfl
  | cons c rest ih =>
    simp only [cutAtLastSeparator]
    split
    · next hcut =>
      rw [hcut] at ih
      unfold hasSeparator
      split <;> simp_all
    · next hcut =>
      rw [hcut] at ih
      split
      · rfl
      · next hne =>
        unfold hasSeparator
        split <;> simp_all

/-- The operation token a keyword ends in, and the text in front of it. -/
def tokenAtEnd? (κ : Type) [Operation κ] (keyword : String) : Option (String × κ) := do
  let (front, back) ← cutAtLastSeparator keyword.toList
  let operation ← Operation.ofToken? κ (String.ofList back)
  return (String.ofList front, operation)

/-- Read a path out of a keyword; a fault shows the whole keyword. -/
def pathWithin (keyword text : String) : Except Fault AttributePath :=
  (AttributePath.parse text).mapError fun _ => .invalidPath keyword

/-- Where a part of a keyword is no path, the fault shows the whole keyword. -/
theorem eq_invalidPath_of_pathWithin {keyword text : String} {fault : Fault}
    (h : pathWithin keyword text = .error fault) : fault = .invalidPath keyword := by
  unfold pathWithin at h
  cases hparse : AttributePath.parse text with
  | ok path =>
    rw [hparse] at h
    cases h
  | error cause =>
    rw [hparse] at h
    cases h
    rfl

/-- The path and the operation a keyword stands for. -/
def resolve (κ : Type) [Operation κ] (keyword : String) : Except Fault (AttributePath × κ) :=
  match tokenAtEnd? κ keyword with
  | some (text, operation) => do return (← pathWithin keyword text, operation)
  | none => do return (← pathWithin keyword keyword, Operation.fallback)

/-- A keyword that stands for nothing is shown by the fault. -/
theorem eq_invalidPath_of_resolve {κ : Type} [Operation κ] {keyword : String} {fault : Fault}
    (h : resolve κ keyword = .error fault) : fault = .invalidPath keyword := by
  unfold resolve at h
  split at h
  · rcases bind_eq_error_iff.mp h with hpath | ⟨_, _, hpure⟩
    · exact eq_invalidPath_of_pathWithin hpath
    · cases hpure
  · rcases bind_eq_error_iff.mp h with hpath | ⟨_, _, hpure⟩
    · exact eq_invalidPath_of_pathWithin hpath
    · cases hpure

end KeywordTable
