import KeywordTable.Condition
import KeywordTable.Proofs.Paths
import KeywordTable.Update

/-!
# Where a keyword ends and its token begins

The token of a keyword is cut off behind the **last** separator, its path is cut from the
left.  In a run of underscores the two cuts fall on different ones, and still each keyword
has one reading: a token neither contains a separator nor begins with an underscore
(`LawfulOperation`), so a separator in front of a token is the last one whatever stands in
front of it.  Hence `tokenAtEnd?_eq_some_iff`: the token at the end of a keyword is found
exactly where the keyword is some text, a separator and that token.

The main result, `readsKeywords`, says for conditions and for changes what every keyword
stands for, and which paths and operations keywords can ask for: every operation at every
path with canonical names.
-/

namespace KeywordTable

/-- The operations can be told apart by their tokens, and their tokens from what is in front
of them. -/
class LawfulOperation (κ : Type) [Operation κ] : Prop where
  ofToken?_token : ∀ operation : κ,
    Operation.ofToken? κ (Operation.token operation) = some operation
  token_not_hasSeparator : ∀ operation : κ,
    hasSeparator (Operation.token operation).toList = false
  token_head : ∀ operation : κ, (Operation.token operation).toList.head? ≠ some '_'

instance : LawfulOperation Operator where
  ofToken?_token operation := by
    cases operation with
    | compare comparison => cases comparison <;> decide
    | _ => decide
  token_not_hasSeparator operation := by
    cases operation with
    | compare comparison => cases comparison <;> decide
    | _ => decide
  token_head operation := by
    cases operation with
    | compare comparison => cases comparison <;> decide
    | _ => decide

instance : LawfulOperation UpdateFunction where
  ofToken?_token operation := by cases operation <;> decide
  token_not_hasSeparator operation := by cases operation <;> decide
  token_head operation := by cases operation <;> decide

/-- **The last separator** is the one behind which no other can begin, not even at its own second
underscore. -/
theorem cutAtLastSeparator_append (front : List Char) {back : List Char}
    (hback : hasSeparator back = false) (hhead : back.head? ≠ some '_') :
    cutAtLastSeparator (front ++ '_' :: '_' :: back) = some (front, back) := by
  induction front with
  | nil =>
      have hnone : cutAtLastSeparator ('_' :: back) = none := by
        rw [← Option.isNone_iff_eq_none, ← Option.not_isSome, cutAtLastSeparator_isSome]
        have hrest : hasSeparator ('_' :: back) = false :=
          hasSeparator_cons_eq_false.mpr ⟨fun h => hhead h.2, hback⟩
        rw [hrest]
        rfl
      rw [List.nil_append, cutAtLastSeparator, hnone]
  | cons c front ih =>
      simp only [List.cons_append, cutAtLastSeparator, ih]

variable {κ : Type} [Operation κ]

/-- A keyword with a token at its end, as a text of characters. -/
theorem toList_token (head : String) (operation : κ) :
    (head ++ separator ++ Operation.token operation).toList =
      head.toList ++ '_' :: '_' :: (Operation.token operation).toList := by
  simp [separator]

/-- An operation is found under its own token only. -/
theorem token_of_ofToken? {token : String} {operation : κ}
    (h : Operation.ofToken? κ token = some operation) : Operation.token operation = token := by
  simpa using List.find?_some h

/-! ### What a keyword stands for -/

/-- The keyword stands for the operation at the path that the text spells.  If the text
spells none, the fault shows the whole keyword. -/
structure StandsFor (keyword text : String) (operation : κ) : Prop where
  found : ∀ path, AttributePath.parse text = .ok path →
    resolve κ keyword = .ok (path, operation)
  missing : ∀ fault, AttributePath.parse text = .error fault →
    resolve κ keyword = .error (.invalidPath keyword)

/-- A keyword stands for what it resolves to. -/
theorem standsFor_of_resolve_eq {keyword text : String} {operation : κ}
    (h : resolve κ keyword = do return (← pathWithin keyword text, operation)) :
    StandsFor keyword text operation where
  found path hpath := by
    rw [h, pathWithin, hpath]
    rfl
  missing fault hfault := by
    rw [h, pathWithin, hfault]
    rfl

/-- What a keyword stands for is all it resolves to. -/
theorem StandsFor.eq_of_resolve {keyword text : String} {operation found : κ}
    {path : AttributePath} (h : StandsFor keyword text operation)
    (hresolve : resolve κ keyword = .ok (path, found)) :
    AttributePath.parse text = .ok path ∧ found = operation := by
  cases hparse : AttributePath.parse text with
  | error fault =>
      rw [h.missing fault hparse] at hresolve
      cases hresolve
  | ok read =>
      rw [h.found read hparse] at hresolve
      cases hresolve
      exact ⟨rfl, rfl⟩

/-! ### Where tokens stand -/

variable [LawfulOperation κ]

/-- A keyword with a token at its end is cut in front of the token. -/
theorem cutAtLastSeparator_token (head : String) (operation : κ) :
    cutAtLastSeparator (head ++ separator ++ Operation.token operation).toList =
      some (head.toList, (Operation.token operation).toList) := by
  rw [toList_token]
  apply cutAtLastSeparator_append
  · exact LawfulOperation.token_not_hasSeparator operation
  · exact LawfulOperation.token_head operation

/-- **A token is found where it stands**, and nowhere else. -/
theorem tokenAtEnd?_eq_some_iff {keyword head : String} {operation : κ} :
    tokenAtEnd? κ keyword = some (head, operation) ↔
      keyword = head ++ separator ++ Operation.token operation := by
  constructor
  · intro h
    unfold tokenAtEnd? at h
    cases hcut : cutAtLastSeparator keyword.toList with
    | none => simp [hcut] at h
    | some cut =>
        obtain ⟨front, back⟩ := cut
        cases hfound : Operation.ofToken? κ (String.ofList back) with
        | none => simp [hcut, hfound] at h
        | some found =>
            obtain ⟨rfl, rfl⟩ : String.ofList front = head ∧ found = operation := by
              simpa [hcut, hfound] using h
            apply String.toList_injective
            rw [toList_token, token_of_ofToken? hfound, eq_of_cutAtLastSeparator hcut]
            simp
  · rintro rfl
    have hcut := cutAtLastSeparator_token head operation
    simp [tokenAtEnd?, hcut, LawfulOperation.ofToken?_token, -String.toList_append]

/-- A keyword that ends in a separator and a token stands for what is in front of them. -/
theorem standsFor_token (head : String) (operation : κ) :
    StandsFor (head ++ separator ++ Operation.token operation) head operation := by
  have htoken := tokenAtEnd?_eq_some_iff.mpr
    (rfl : _ = head ++ separator ++ Operation.token operation)
  apply standsFor_of_resolve_eq
  rw [resolve, htoken]

/-- Of three underscores the last two are in front of the token. -/
example : (resolve Operator "a___eq").toOption.map (fun found => found.1.names) = some ["a_"] := by
  decide

/-- Any other keyword stands for itself as a whole. -/
theorem standsFor_whole {keyword : String}
    (h : ∀ head (operation : κ), keyword ≠ head ++ separator ++ Operation.token operation) :
    StandsFor keyword keyword (Operation.fallback : κ) := by
  have hnone : tokenAtEnd? κ keyword = none := by
    rw [Option.eq_none_iff_forall_not_mem]
    rintro ⟨head, operation⟩ hmem
    exact h head operation (tokenAtEnd?_eq_some_iff.mp hmem)
  apply standsFor_of_resolve_eq
  rw [resolve, hnone]

/-- A keyword that is resolved is a path, with a token behind it or without one. -/
theorem eq_of_resolve {keyword : String} {path : AttributePath} {operation : κ}
    (h : resolve κ keyword = .ok (path, operation)) :
    (∃ head, keyword = head ++ separator ++ Operation.token operation ∧
        AttributePath.parse head = .ok path) ∨
      AttributePath.parse keyword = .ok path ∧ operation = Operation.fallback := by
  by_cases htoken : ∃ head, ∃ found : κ, keyword = head ++ separator ++ Operation.token found
  · obtain ⟨head, found, rfl⟩ := htoken
    obtain ⟨hparse, rfl⟩ := (standsFor_token head found).eq_of_resolve h
    exact .inl ⟨head, rfl, hparse⟩
  · have hwhole : StandsFor keyword keyword (Operation.fallback : κ) :=
      standsFor_whole fun head found heq => htoken ⟨head, found, heq⟩
    exact .inr (hwhole.eq_of_resolve h)

/-- A legal name is a keyword without a token. -/
theorem ne_token_of_legalName {name : String} (h : LegalName name) (head : String)
    (operation : κ) : name ≠ head ++ separator ++ Operation.token operation := by
  rintro rfl
  have hseparator := h.2
  rw [← cutAtLastSeparator_isSome, cutAtLastSeparator_token] at hseparator
  cases hseparator

/-- **A name alone** asks for the attribute of that name, by the operation that needs no
token, exactly if a path can hold it. -/
theorem resolve_name_iff {name : String} :
    (∃ path, resolve κ name = .ok (path, Operation.fallback) ∧ path.names = [name]) ↔
      LegalName name := by
  constructor
  · rintro ⟨path, _, hnames⟩
    exact path.legal name (hnames ▸ List.mem_singleton_self name)
  · intro hlegal
    obtain ⟨path, hparse, hnames⟩ := AttributePath.exists_parse_name hlegal
    exact ⟨path, (standsFor_whole (ne_token_of_legalName hlegal)).found path hparse, hnames⟩

/-- Canonical names with a token behind them reach the path of these names. -/
theorem exists_resolve_token {names : List String} (h : CanonicalNames names) (operation : κ) :
    ∃ reached : AttributePath, reached.names = names ∧
      resolve κ (separator.intercalate names ++ separator ++ Operation.token operation) =
        .ok (reached, operation) := by
  let reached : AttributePath := ⟨names, h.names_ne_nil, h.legal⟩
  exact ⟨reached, rfl,
    (standsFor_token reached.joined operation).found reached (AttributePath.parse_joined h)⟩

/-- **What keywords can ask for**: any operation at any path with canonical names. -/
theorem exists_resolve_iff (names : List String) (operation : κ) :
    (∃ keyword path, resolve κ keyword = .ok (path, operation) ∧ path.names = names) ↔
      CanonicalNames names := by
  constructor
  · rintro ⟨keyword, path, hresolve, rfl⟩
    rcases eq_of_resolve hresolve with ⟨head, _, hparse⟩ | ⟨hparse, _⟩
    · exact AttributePath.canonical_of_parse hparse
    · exact AttributePath.canonical_of_parse hparse
  · intro hnames
    obtain ⟨path, hpath, hresolve⟩ := exists_resolve_token hnames operation
    exact ⟨_, path, hresolve, hpath⟩

/-- How a table of operations reads keywords. -/
structure ReadsKeywords (κ : Type) [Operation κ] : Prop where
  /-- Behind the last separator a token is the operation, whatever stands in front. -/
  withToken : ∀ head (operation : κ),
    StandsFor (head ++ separator ++ Operation.token operation) head operation
  /-- A keyword that does not end so is all path. -/
  withoutToken : ∀ keyword,
    (∀ head (operation : κ), keyword ≠ head ++ separator ++ Operation.token operation) →
      StandsFor keyword keyword (Operation.fallback : κ)
  /-- Each operation can be asked for at the paths with canonical names and at no other. -/
  reaches : ∀ names (operation : κ),
    (∃ keyword path, resolve κ keyword = .ok (path, operation) ∧ path.names = names) ↔
      CanonicalNames names

/-- **Keywords are read by their trailing token alone**, in conditions and in updates. -/
theorem readsKeywords : ReadsKeywords Operator ∧ ReadsKeywords UpdateFunction :=
  ⟨⟨standsFor_token, fun _ => standsFor_whole, exists_resolve_iff⟩,
    ⟨standsFor_token, fun _ => standsFor_whole, exists_resolve_iff⟩⟩

end KeywordTable
