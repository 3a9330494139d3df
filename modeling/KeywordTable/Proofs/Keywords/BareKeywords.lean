import KeywordTable.Proofs.Keywords

/-!
# Attributes out of a bare keyword's reach

A bare keyword is nothing but the names of a path, joined by separators.  One should think that
it asks for the attribute at this path by the operation that needs no token.  It does, unless
its end can be taken for a token, and there are two ways to this: the last name is a token, or
it is an underscore and a token.  In the second the name in front of it gets the underscore,
because of three underscores the last two are the separator in front of a token.

That there is no third way is `eq_token_or_of_append_eq`: a text is cut in front of its last
name and in front of its token, and the two cuts are at most one character apart.
-/

namespace KeywordTable

/-! ### The end of a text -/

/-- An underscore behind something else makes no separator. -/
theorem hasSeparator_append_underscore {cs : List Char} (h : hasSeparator cs = false)
    (hlast : cs.getLast? ≠ some '_') : hasSeparator (cs ++ ['_']) = false := by
  induction cs with
  | nil => rfl
  | cons c cs ih =>
      obtain ⟨hc, htail⟩ := hasSeparator_cons_eq_false.mp h
      rw [List.cons_append, hasSeparator_cons_eq_false]
      cases cs with
      | nil =>
          refine ⟨?_, rfl⟩
          rintro ⟨rfl, _⟩
          exact hlast rfl
      | cons d cs =>
          rw [List.getLast?_cons_cons] at hlast
          exact ⟨hc, ih htail hlast⟩

/-- **Two cuts of one text.** Where a text ends in a separator and a piece, and also in a
separator and a token, the piece is the token, or the token behind an underscore with the
separator one character further to the right. -/
theorem eq_token_or_of_append_eq {front head last token : List Char}
    (h : front ++ '_' :: '_' :: last = head ++ '_' :: '_' :: token)
    (hlast : hasSeparator last = false) (htoken : hasSeparator token = false)
    (hhead : token.head? ≠ some '_') : last = token ∨ last = '_' :: token := by
  have hcut := cutAtLastSeparator_append head htoken hhead
  rw [← h] at hcut
  by_cases hfirst : last.head? = some '_'
  · obtain ⟨rest, rfl⟩ := List.head?_eq_some_iff.mp hfirst
    obtain ⟨hnot, hrest⟩ := hasSeparator_cons_eq_false.mp hlast
    have hrest' : rest.head? ≠ some '_' := fun hmore => hnot ⟨rfl, hmore⟩
    have hmove : front ++ '_' :: '_' :: '_' :: rest =
        (front ++ ['_']) ++ '_' :: '_' :: rest := by simp
    rw [hmove, cutAtLastSeparator_append _ hrest hrest'] at hcut
    have hback := (Prod.mk.inj (Option.some.inj hcut)).2
    exact .inr (congrArg _ hback)
  · rw [cutAtLastSeparator_append front hlast hfirst] at hcut
    exact .inl (Prod.mk.inj (Option.some.inj hcut)).2

/-! ### The last name of a path -/

/-- Names without the last one are joined to the text in front of the last separator. -/
theorem intercalate_concat {front : List String} (h : front ≠ []) (last : String) :
    separator.intercalate (front ++ [last]) =
      separator.intercalate front ++ separator ++ last := by
  induction front with
  | nil => exact absurd rfl h
  | cons name front ih =>
      cases front with
      | nil => simp [String.intercalate_cons_cons]
      | cons next front =>
          rw [List.cons_append, List.cons_append, String.intercalate_cons_cons,
            String.intercalate_cons_cons, ← List.cons_append, ih (List.cons_ne_nil _ _)]
          simp only [String.append_assoc]

/-- A `_` behind the last name stands behind the joined text. -/
theorem intercalate_append_underscore (front : List String) (name : String) :
    separator.intercalate (front ++ [name ++ "_"]) =
      separator.intercalate (front ++ [name]) ++ "_" := by
  cases front with
  | nil => rw [List.nil_append, List.nil_append, String.intercalate_singleton,
      String.intercalate_singleton]
  | cons first front =>
      rw [intercalate_concat (List.cons_ne_nil _ _), intercalate_concat (List.cons_ne_nil _ _)]
      simp only [String.append_assoc]

namespace CanonicalNames

variable {front : List String} {name last : String}

/-- Names without the last one are canonical. -/
theorem dropLast_concat (h : CanonicalNames (front ++ [last])) (hfront : front ≠ []) :
    CanonicalNames front where
  names_ne_nil := hfront
  legal other hother := h.legal other (List.mem_append_left _ hother)
  inner other hother := by
    have hinner := h.inner
    rw [List.dropLast_concat] at hinner
    exact hinner other (List.dropLast_subset _ hother)

/-- The last name may get an underscore, if it does not end in one. -/
theorem concat_underscore (h : CanonicalNames (front ++ [name]))
    (hname : name.toList.getLast? ≠ some '_') : CanonicalNames (front ++ [name ++ "_"]) where
  names_ne_nil := by simp
  legal other hother := by
    rcases List.mem_append.mp hother with hother | hother
    · exact h.legal other (List.mem_append_left _ hother)
    · have hlegal := h.legal name (List.mem_append_right _ List.mem_cons_self)
      rw [List.mem_singleton.mp hother]
      refine ⟨by simp, ?_⟩
      rw [String.toList_append]
      exact hasSeparator_append_underscore hlegal.2 hname
  inner := by
    have hinner := h.inner
    rw [List.dropLast_concat] at hinner ⊢
    exact hinner

end CanonicalNames

/-- The innermost name. -/
def AttributePath.last (path : AttributePath) : String := path.names.getLast path.names_ne_nil

/-- A path is its last name behind the others. -/
theorem AttributePath.names_eq_concat (path : AttributePath) :
    path.names = path.names.dropLast ++ [path.last] :=
  (List.dropLast_append_getLast path.names_ne_nil).symm

/-- A name behind others is not the only one. -/
theorem length_ne_one_of_concat {front names : List String} {last : String} (hfront : front ≠ [])
    (h : names = front ++ [last]) : names.length ≠ 1 := by
  have hpos := List.length_pos_of_ne_nil hfront
  rw [h, List.length_append, List.length_singleton]
  omega

/-! ### What bare keywords stand for -/

variable {κ : Type} [Operation κ]

/-- What a keyword stands for that is nothing but the names of a path. -/
structure BareKeyword (κ : Type) [Operation κ] (path : AttributePath) : Prop where
  /-- It asks for the attribute at the path, by the operation that needs no token, unless the
  last of several names is a token or an underscore and a token. -/
  itself_iff : resolve κ path.joined = .ok (path, Operation.fallback) ↔
    path.names.length = 1 ∨
      ∀ operation : κ, path.last ≠ Operation.token operation ∧
        path.last ≠ "_" ++ Operation.token operation
  /-- A token is taken for the operation, at the path in front of it. -/
  token : ∀ front (operation : κ), front ≠ [] →
    path.names = front ++ [Operation.token operation] →
      ∃ reached : AttributePath, reached.names = front ∧
        resolve κ path.joined = .ok (reached, operation)
  /-- So is a token behind an underscore, which goes to the name in front. -/
  underscore : ∀ front name (operation : κ),
    path.names = front ++ [name, "_" ++ Operation.token operation] →
      ∃ reached : AttributePath, reached.names = front ++ [name ++ "_"] ∧
        resolve κ path.joined = .ok (reached, operation)

variable [LawfulOperation κ] {path : AttributePath}

/-- A path whose last name is a token is cut in front of it. -/
theorem exists_resolve_of_token (h : CanonicalNames path.names) {front : List String}
    (hfront : front ≠ []) {operation : κ}
    (hnames : path.names = front ++ [Operation.token operation]) :
    ∃ reached : AttributePath, reached.names = front ∧
      resolve κ path.joined = .ok (reached, operation) := by
  rw [AttributePath.joined, hnames, intercalate_concat hfront]
  rw [hnames] at h
  exact exists_resolve_token (h.dropLast_concat hfront) operation

/-- A path whose last name is a token behind a `_` is cut there, and the `_` stays with the name
before. -/
theorem exists_resolve_of_underscore (h : CanonicalNames path.names) {front : List String}
    {name : String} {operation : κ}
    (hnames : path.names = front ++ [name, "_" ++ Operation.token operation]) :
    ∃ reached : AttributePath, reached.names = front ++ [name ++ "_"] ∧
      resolve κ path.joined = .ok (reached, operation) := by
  have hsplit : path.names = (front ++ [name]) ++ ["_" ++ Operation.token operation] := by
    rw [hnames, List.append_assoc]
    rfl
  have hne : front ++ [name] ≠ [] := by simp
  have hname : name.toList.getLast? ≠ some '_' := by
    refine h.inner name ?_
    rw [hsplit, List.dropLast_concat]
    exact List.mem_append_right _ List.mem_cons_self
  rw [hsplit] at h
  have hreached := (h.dropLast_concat hne).concat_underscore hname
  have hmove : path.joined =
      separator.intercalate (front ++ [name ++ "_"]) ++ separator ++
        Operation.token operation := by
    have hthree : separator ++ "_" = "_" ++ separator := rfl
    calc path.joined
        = separator.intercalate (front ++ [name]) ++ separator ++
            ("_" ++ Operation.token operation) := by
          rw [AttributePath.joined, hsplit, intercalate_concat hne]
      _ = separator.intercalate (front ++ [name]) ++ (separator ++ "_") ++
            Operation.token operation := by simp only [String.append_assoc]
      _ = separator.intercalate (front ++ [name ++ "_"]) ++ separator ++
            Operation.token operation := by
          rw [hthree, intercalate_append_underscore]
          simp only [String.append_assoc]
  rw [hmove]
  exact exists_resolve_token hreached operation

/-- The end is taken for a token only where it can be. -/
theorem resolve_joined (h : CanonicalNames path.names)
    (hlast : path.names.length = 1 ∨
      ∀ operation : κ, path.last ≠ Operation.token operation ∧
        path.last ≠ "_" ++ Operation.token operation) :
    resolve κ path.joined = .ok (path, Operation.fallback) := by
  refine (standsFor_whole fun head operation hjoined => ?_).found path
    (AttributePath.parse_joined h)
  have hlegal : LegalName path.last := path.legal _ (List.getLast_mem path.names_ne_nil)
  by_cases hfront : path.names.dropLast = []
  · have hsingle : path.names = [path.last] := by rw [path.names_eq_concat, hfront]; rfl
    rw [AttributePath.joined_of_names hsingle] at hjoined
    exact ne_token_of_legalName hlegal head operation hjoined
  · obtain ⟨htoken, hunderscore⟩ :=
      (hlast.resolve_left (length_ne_one_of_concat hfront path.names_eq_concat)) operation
    rw [AttributePath.joined, path.names_eq_concat, intercalate_concat hfront] at hjoined
    have hchars := congrArg String.toList hjoined
    rw [toList_token] at hchars
    rcases eq_token_or_of_append_eq (by simpa [separator] using hchars) hlegal.2
      (LawfulOperation.token_not_hasSeparator operation)
      (LawfulOperation.token_head operation) with heq | heq
    · exact htoken (String.toList_injective heq)
    · refine hunderscore (String.toList_injective ?_)
      rw [heq, String.toList_append]
      rfl

/-- **Where a bare path leads**: to itself, unless its last name spells a token. -/
theorem bareKeyword (h : CanonicalNames path.names) : BareKeyword κ path where
  itself_iff := by
    refine ⟨fun hresolve => ?_, resolve_joined h⟩
    have hwhole : ∀ (reached : AttributePath) (operation : κ),
        resolve κ path.joined = .ok (reached, operation) →
          ¬ reached.names.length < path.names.length := by
      intro reached operation hreached
      rw [hresolve] at hreached
      cases hreached
      exact Nat.lt_irrefl _
    by_contra hnot
    obtain ⟨hlength, hlast⟩ := not_or.mp hnot
    have hfront : path.names.dropLast ≠ [] := fun hnil =>
      hlength (by rw [path.names_eq_concat, hnil]; rfl)
    refine hlast fun operation => ⟨fun htoken => ?_, fun hunderscore => ?_⟩
    · obtain ⟨reached, hnames, hreached⟩ := exists_resolve_of_token h hfront
        (htoken ▸ path.names_eq_concat)
      refine hwhole reached operation hreached ?_
      have hpos := List.length_pos_of_ne_nil path.names_ne_nil
      rw [hnames, List.length_dropLast]
      omega
    · obtain ⟨front, name, hdrop⟩ := (List.eq_nil_or_concat' _).resolve_left hfront
      have hsplit : path.names = front ++ [name, "_" ++ Operation.token operation] := by
        rw [path.names_eq_concat, hdrop, hunderscore, List.append_assoc]
        rfl
      obtain ⟨reached, hnames, hreached⟩ := exists_resolve_of_underscore h hsplit
      refine hwhole reached operation hreached ?_
      simp [hnames, hsplit]
  token _ _ hfront hnames := exists_resolve_of_token h hfront hnames
  underscore _ _ _ hnames := exists_resolve_of_underscore h hnames

/-- **What a bare keyword reaches**, in conditions and in updates. -/
theorem AttributePath.reached_by_bareKeyword (path : AttributePath)
    (h : CanonicalNames path.names) :
    BareKeyword Operator path ∧ BareKeyword UpdateFunction path :=
  ⟨bareKeyword h, bareKeyword h⟩

/-- The attribute `_gte` of a map `visit` is out of reach: its keyword is about `visit_`. -/
theorem AttributePath.reached_by_visit_gte :
    CanonicalNames ["visit", "_gte"] ∧
      ∃ reached : AttributePath, reached.names = ["visit_"] ∧
        resolve Operator "visit___gte" = .ok (reached, .compare .greaterOrEqual) := by
  have hcanonical : CanonicalNames ["visit", "_gte"] := ⟨by decide, by decide, by decide⟩
  let path : AttributePath := ⟨_, hcanonical.names_ne_nil, hcanonical.legal⟩
  have hjoined : path.joined = "visit___gte" := rfl
  have hbare := (path.reached_by_bareKeyword hcanonical).1
  rw [← hjoined]
  exact ⟨hcanonical, hbare.underscore [] "visit" (.compare .greaterOrEqual) rfl⟩

end KeywordTable
