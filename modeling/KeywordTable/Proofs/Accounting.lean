import KeywordTable.Proofs.Spelling

/-!
# Which tokens an expression mentions

A rendered text is made of the words of the language (`vocabulary`) and of tokens.
`Accounts` is the law that ties the tokens to the supply: the tokens in use after
a text was written are those in use before and those that the text mentions.  So a
text mentions no token without a meaning, and no token is taken without being
mentioned.

The law is proved once for each renderer; what is said of whole requests follows
by putting texts one after the other.
-/

namespace KeywordTable

open Placeholders

/-- The words of expressions, apart from tokens and from the words that begin the
clauses of an update. -/
def vocabulary : List String :=
  [" ", ",", "(", ")", ".", "=", "<>", "<", "<=", ">", ">=", "+", "-", "AND", "BETWEEN", "IN",
    "begins_with", "contains", "attribute_exists", "attribute_not_exists", "if_not_exists",
    "list_append"]

/-- The tokens that are in use. -/
def Placeholders.tokens (supply : Placeholders) : List String :=
  Fields.names supply.nameMap ++ Fields.names supply.valueMap

/-- The tokens in use after the run are those in use before and those that the
texts mention, as far as a text is no word of the language. -/
def AccountsFor {α : Type} (words : List String) (texts : α → List String)
    (run : Interning α) : Prop :=
  ∀ (supply : Placeholders) (word : String), word ∉ words →
    (word ∈ (run supply).2.tokens ↔
      word ∈ supply.tokens ∨ ∃ text ∈ texts (run supply).1, word ∈ lexemes text)

/-- The law for a single text. -/
def Accounts (run : Interning String) : Prop := AccountsFor vocabulary (fun text => [text]) run

/-- A text is accounted for if the supply grows by just the tokens in it. -/
theorem accounts_iff {run : Interning String} :
    Accounts run ↔ ∀ (supply : Placeholders) (word : String), word ∉ vocabulary →
      (word ∈ (run supply).2.tokens ↔
        word ∈ supply.tokens ∨ word ∈ lexemes (run supply).1) := by
  simp [Accounts, AccountsFor]

/-! ### Tokens of names and values -/

/-- The name tokens in use are those of the places that are taken. -/
theorem mem_names_nameMap {supply : Placeholders} {word : String} :
    word ∈ Fields.names supply.nameMap ↔
      ∃ place < supply.names.length, nameToken place = word := by
  simp [Fields.names, nameMap, List.mem_mapIdx]

theorem mem_names_valueMap {supply : Placeholders} {word : String} :
    word ∈ Fields.names supply.valueMap ↔
      ∃ place < supply.values.length, valueToken place = word := by
  simp [Fields.names, valueMap, List.mem_mapIdx]

/-- A word of the language is no token. -/
theorem not_mem_tokens (supply : Placeholders) {word : String}
    (hname : word.toList.head? ≠ some '#') (hvalue : word.toList.head? ≠ some ':') :
    word ∉ supply.tokens := by
  rw [Placeholders.tokens, List.mem_append, mem_names_nameMap, mem_names_valueMap]
  rintro (⟨place, _, htoken⟩ | ⟨place, _, htoken⟩)
  · exact nameToken_ne place word hname htoken
  · exact valueToken_ne place word hvalue htoken

/-- The token of a name is in use once the name is written. -/
theorem accounts_internName (name : String) : Accounts (internName name) := by
  rw [accounts_iff]
  intro supply word _
  have htoken : lexemes (internName name supply).1 = [nameToken (supply.names.idxOf name)] :=
    lexemes_nameToken _
  simp only [Placeholders.tokens, List.mem_append, mem_names_nameMap, mem_names_valueMap,
    names_internName, values_internName, htoken, List.mem_singleton]
  by_cases h : name ∈ supply.names
  · have hlt := List.idxOf_lt_length_of_mem h
    rw [if_pos h]
    grind
  · rw [if_neg h, List.idxOf_eq_length h, List.length_append, List.length_singleton]
    grind

theorem accounts_internValue (value : Value) : Accounts (internValue value) := by
  rw [accounts_iff]
  intro supply word _
  have htoken : lexemes (internValue value supply).1 = [valueToken (supply.values.idxOf value)] :=
    lexemes_valueToken _
  simp only [Placeholders.tokens, List.mem_append, mem_names_nameMap, mem_names_valueMap,
    names_internValue, values_internValue, htoken, List.mem_singleton]
  by_cases h : value ∈ supply.values
  · have hlt := List.idxOf_lt_length_of_mem h
    rw [if_pos h]
    grind
  · rw [if_neg h, List.idxOf_eq_length h, List.length_append, List.length_singleton]
    grind

/-! ### Lists of texts -/

/-- Without a text no token is taken. -/
theorem accountsFor_pure {α : Type} (words : List String) {texts : α → List String} {x : α}
    (h : texts x = []) : AccountsFor words texts (pure x) := by
  intro supply word _
  show word ∈ supply.tokens ↔ word ∈ supply.tokens ∨ ∃ text ∈ texts x, word ∈ lexemes text
  simp [h]

/-- A list of texts is accounted for if each of them is. -/
theorem accountsFor_mapM {α β : Type} {words : List String} (text : β → String)
    {run : α → Interning β}
    (h : ∀ x, AccountsFor words (fun y => [text y]) (run x)) (xs : List α) :
    AccountsFor words (fun ys => ys.map text) (xs.mapM run) := by
  induction xs with
  | nil => exact accountsFor_pure words rfl
  | cons x xs ih =>
      intro supply word hword
      rw [List.mapM_cons]
      have hfirst := h x supply word hword
      have hrest := ih (run x supply).2 word hword
      show word ∈ (xs.mapM run (run x supply).2).2.tokens ↔ word ∈ supply.tokens ∨
        ∃ t ∈ (((run x supply).1 :: (xs.mapM run (run x supply).2).1).map text), _
      rw [hrest, hfirst]
      simp [or_assoc]

/-- What is mentioned between gaps is mentioned by a part. -/
theorem mem_intercalate {gap : List String} {word : String} (h : word ∉ gap)
    (parts : List (List String)) :
    word ∈ gap.intercalate parts ↔ ∃ part ∈ parts, word ∈ part := by
  induction parts with
  | nil => simp
  | cons part parts ih =>
      cases parts with
      | nil => simp
      | cons next parts =>
          rw [List.intercalate_cons_cons, List.mem_append, List.mem_append, ih]
          simp [h]

/-- Texts apart by gaps mention what the texts mention. -/
theorem accounts_intercalate {gap : String} (hgap : IsGap gap)
    (hwords : ∀ word ∈ lexemes gap, word ∈ vocabulary) {run : Interning (List String)}
    (h : AccountsFor vocabulary id run) :
    Accounts (do return gap.intercalate (← run)) := by
  rw [accounts_iff]
  intro supply word hword
  have hfree : word ∉ lexemes gap := fun hmem => hword (hwords word hmem)
  have hrun := h supply word hword
  show word ∈ (run supply).2.tokens ↔
    word ∈ supply.tokens ∨ word ∈ lexemes (gap.intercalate (run supply).1)
  rw [hrun, lexemes_intercalate hgap, mem_intercalate hfree]
  simp

/-- A path mentions the tokens of its names, and dots. -/
theorem accounts_internPath (path : AttributePath) : Accounts (internPath path) := by
  refine accounts_intercalate (by decide) (by decide) ?_
  simpa [AccountsFor] using accountsFor_mapM id accounts_internName path.names

/-! ### Texts put together -/

/-- A text inside of fixed words mentions what it mentioned. -/
theorem accounts_wrap (front back : List String) {run : Interning String}
    {wrap : String → String} (hrun : Accounts run)
    (hwrap : ∀ text, lexemes (wrap text) = front ++ (lexemes text ++ back))
    (hwords : ∀ word ∈ front ++ back, word ∈ vocabulary) :
    Accounts (do return wrap (← run)) := by
  rw [accounts_iff]
  intro supply word hword
  have hfixed : word ∉ front ++ back := fun hmem => hword (hwords word hmem)
  have hmentions := accounts_iff.mp hrun supply word hword
  show word ∈ (run supply).2.tokens ↔ word ∈ supply.tokens ∨ word ∈ lexemes (wrap (run supply).1)
  rw [hmentions, hwrap]
  simp only [List.mem_append, not_or] at hfixed ⊢
  simp [hfixed]

/-- Two texts joined by fixed words mention what they mentioned. -/
theorem accounts_join (front middle back : List String) {first second : Interning String}
    {join : String → String → String} (hfirst : Accounts first) (hsecond : Accounts second)
    (hjoin : ∀ text text', lexemes (join text text') =
      front ++ (lexemes text ++ (middle ++ (lexemes text' ++ back))))
    (hwords : ∀ word ∈ front ++ (middle ++ back), word ∈ vocabulary) :
    Accounts (do
      let text ← first
      let text' ← second
      return join text text') := by
  rw [accounts_iff]
  intro supply word hword
  have hfixed : word ∉ front ++ (middle ++ back) := fun hmem => hword (hwords word hmem)
  have hmentions := accounts_iff.mp hfirst supply word hword
  have hmentions' := accounts_iff.mp hsecond (first supply).2 word hword
  show word ∈ (second (first supply).2).2.tokens ↔
    word ∈ supply.tokens ∨ word ∈ lexemes (join (first supply).1 (second (first supply).2).1)
  rw [hmentions', hmentions, hjoin]
  simp only [List.mem_append, not_or] at hfixed ⊢
  simp [hfixed, or_assoc]

/-- Two texts with a sign between them. -/
theorem accounts_sign {gap : String} (sign : String) (hsign : (gap, sign) ∈ separators)
    {first second : Interning String} (hfirst : Accounts first) (hsecond : Accounts second) :
    Accounts (do
      let text ← first
      let text' ← second
      return text ++ gap ++ text') := by
  refine accounts_join [] [" ", sign, " "] [] hfirst hsecond (fun text text' => ?_) ?_
  · simp [lexemes_sign sign hsign]
  · have hwords : ∀ entry ∈ separators, ∀ word ∈ [" ", entry.2, " "], word ∈ vocabulary := by decide
    simpa using hwords _ hsign

/-- A function of a path. -/
theorem accounts_presence {opening : String} (name : String) (hopen : (opening, name) ∈ openings)
    (path : AttributePath) :
    Accounts (do
      let path ← internPath path
      return opening ++ path ++ ")") := by
  have hwords : ∀ entry ∈ openings, ∀ word ∈ [entry.2, "(", ")"], word ∈ vocabulary := by decide
  exact accounts_wrap [name, "("] [")"] (accounts_internPath path)
    (lexemes_presence name hopen) (hwords _ hopen)

/-- A function of a path and a value. -/
theorem accounts_function {opening : String} (name : String) (hopen : (opening, name) ∈ openings)
    (path : AttributePath) (value : Value) :
    Accounts (do
      let path ← internPath path
      let value ← internValue value
      return opening ++ path ++ ", " ++ value ++ ")") := by
  have hwords : ∀ entry ∈ openings, ∀ word ∈ [entry.2, "(", ",", " ", ")"],
      word ∈ vocabulary := by decide
  exact accounts_join [name, "("] [",", " "] [")"] (accounts_internPath path)
    (accounts_internValue value) (lexemes_function name hopen) (hwords _ hopen)

/-! ### Conditions -/

/-- The symbols of comparisons are words of the language. -/
theorem Comparison.symbol_mem_vocabulary (comparison : Comparison) :
    comparison.symbol ∈ vocabulary := by
  cases comparison <;> decide

/-- A range mentions the tokens of its path and of its two ends. -/
theorem accounts_between (path : AttributePath) (low high : Value) :
    Accounts (Condition.test path (.between low high)).render := by
  have hrange : Accounts (do
      let low ← internValue low
      let high ← internValue high
      return low ++ " AND " ++ high) :=
    accounts_sign "AND" (by decide) (accounts_internValue low)
      (accounts_internValue high)
  have hwhole : Accounts (do
      let path ← internPath path
      let range ← (do
        let low ← internValue low
        let high ← internValue high
        return low ++ " AND " ++ high)
      return path ++ " BETWEEN " ++ range) :=
    accounts_sign "BETWEEN" (by decide) (accounts_internPath path) hrange
  simpa [Condition.render, Test.render, String.append_assoc] using hwhole

/-- A test mentions the tokens of its path and of its operands. -/
theorem Condition.accounts_test (path : AttributePath) (asked : Test) :
    Accounts (Condition.test path asked).render := by
  cases asked with
  | compare comparison operand =>
      refine accounts_join [] [" ", comparison.symbol, " "] [] (accounts_internPath path)
        (accounts_internValue operand) (fun text text' => by simp [lexemes_compare]) ?_
      simpa [vocabulary] using comparison.symbol_mem_vocabulary
  | between low high => exact accounts_between path low high
  | among operands =>
      have hvalues : AccountsFor vocabulary id (operands.mapM internValue) := by
        simpa [AccountsFor] using accountsFor_mapM id accounts_internValue operands
      have hwhole : Accounts (do
          let path ← internPath path
          let values ← (do return ", ".intercalate (← operands.mapM internValue))
          return path ++ " IN (" ++ values ++ ")") :=
        accounts_join [] [" ", "IN", " ", "("] [")"] (accounts_internPath path)
          (accounts_intercalate (by decide) (by decide) hvalues) lexemes_among (by decide)
      simpa [Condition.render, Test.render] using hwhole
  | beginsWith operand => exact accounts_function "begins_with" (by decide) path operand
  | contains operand => exact accounts_function "contains" (by decide) path operand
  | present => exact accounts_presence "attribute_exists" (by decide) path
  | absent => exact accounts_presence "attribute_not_exists" (by decide) path

/-- Parentheses mention nothing. -/
theorem accounts_enclose (condition : Condition) (h : Accounts condition.render) :
    Accounts (do return condition.enclose (← condition.render)) := by
  unfold Condition.enclose
  split
  · exact accounts_wrap ["("] [")"] h lexemes_enclosed (by decide)
  · simpa using h

mutual

/-- **A condition mentions exactly the tokens that it takes.** -/
theorem Condition.accounts_render : ∀ condition : Condition, Accounts condition.render
  | .test path asked => Condition.accounts_test path asked
  | .all conditions => by
      rw [Condition.render]
      exact accounts_intercalate (by decide) (by decide)
        (Condition.accountsFor_renderEach conditions)

/-- So do the parts of a conjunction, each in its parentheses. -/
theorem Condition.accountsFor_renderEach :
    ∀ conditions : List Condition, AccountsFor vocabulary id (Condition.renderEach conditions)
  | [] => by
      rw [Condition.renderEach]
      exact accountsFor_pure vocabulary rfl
  | condition :: rest => by
      intro supply word hword
      have hfirst : word ∈ (condition.render supply).2.tokens ↔ word ∈ supply.tokens ∨
          word ∈ lexemes (condition.enclose (condition.render supply).1) :=
        accounts_iff.mp (accounts_enclose condition (Condition.accounts_render condition)) supply
          word hword
      have hrest := Condition.accountsFor_renderEach rest (condition.render supply).2 word hword
      rw [Condition.renderEach]
      show word ∈ (Condition.renderEach rest (condition.render supply).2).2.tokens ↔
        word ∈ supply.tokens ∨ ∃ text ∈ condition.enclose (condition.render supply).1 ::
          (Condition.renderEach rest (condition.render supply).2).1, word ∈ lexemes text
      rw [hrest, hfirst]
      simp [or_assoc]

end

/-! ### Selections -/

/-- A selection mentions exactly the tokens that it takes. -/
theorem Selection.accounts_render (selection : Selection) : Accounts selection.render := by
  have hpaths : AccountsFor vocabulary id (selection.paths.mapM internPath) := by
    simpa [AccountsFor] using accountsFor_mapM id accounts_internPath selection.paths
  exact accounts_intercalate (by decide) (by decide) hpaths

/-! ### Changes -/

/-- So does what an attribute is set to. -/
theorem Assigned.accounts_render (assigned : Assigned) : Accounts assigned.render := by
  cases assigned with
  | literal value => exact accounts_internValue value
  | ifNotExists source value => exact accounts_function "if_not_exists" (by decide) source value
  | sum source value =>
      exact accounts_sign "+" (by decide) (accounts_internPath source)
        (accounts_internValue value)
  | difference source value =>
      exact accounts_sign "-" (by decide) (accounts_internPath source)
        (accounts_internValue value)
  | appended source value => exact accounts_function "list_append" (by decide) source value

/-- So does a change. -/
theorem Change.accounts_render (change : Change) : Accounts change.render := by
  cases change with
  | set target assigned =>
      exact accounts_sign "=" (by decide) (accounts_internPath target)
        assigned.accounts_render
  | remove target => exact accounts_internPath target
  | add target value | delete target value =>
      exact accounts_join [] [" "] [] (accounts_internPath target) (accounts_internValue value)
        (fun text text' => by simp [lexemes_blank]) (by decide)

/-- A text stands in a clause if it was written for it. -/
theorem mem_textsOf {clause : Clause} {texts : List (Clause × String)} {text : String} :
    text ∈ Change.textsOf clause texts ↔ (clause, text) ∈ texts := by
  simp [Change.textsOf]

/-- There are no other clauses than the four. -/
theorem Clause.mem_all (clause : Clause) : clause ∈ Clause.all := by
  cases clause <;> decide

/-- The words that do not tell changes apart: those of the language and those that
begin a clause. -/
def updateVocabulary : List String := vocabulary ++ Clause.all.map Clause.word

/-- The words that clauses begin with are words of the language of updates. -/
theorem Clause.word_mem (clause : Clause) : clause.word ∈ updateVocabulary :=
  List.mem_append_right _ (List.mem_map_of_mem clause.mem_all)

/-- A clause mentions what its changes mention. -/
theorem mem_lexemes_clause {word : String} (hword : word ∉ updateVocabulary) (clause : Clause)
    (changes : List String) :
    (∃ part, clause.render? changes = some part ∧ word ∈ lexemes part) ↔
      ∃ text ∈ changes, word ∈ lexemes text := by
  have hclause : word ≠ clause.word := (ne_of_mem_of_not_mem clause.word_mem hword).symm
  have hgaps : ∀ gap ∈ [" ", ","], gap ∈ updateVocabulary := by decide
  have hfree : word ∉ [" ", ","] := fun hmem => hword (hgaps word hmem)
  simp only [List.mem_cons, List.not_mem_nil, or_false, not_or] at hfree
  unfold Clause.render?
  split
  · next hempty => simp [List.isEmpty_iff.mp hempty]
  · simp [lexemes_clause, mem_intercalate, hfree, hclause]

/-- The texts of changes, clause by clause, mention what all of the texts mention. -/
theorem mem_lexemes_clauses {word : String} (hword : word ∉ updateVocabulary)
    (texts : List (Clause × String)) :
    word ∈ lexemes (" ".intercalate (Clause.all.filterMap fun clause =>
        clause.render? (Change.textsOf clause texts))) ↔
      ∃ text ∈ texts.map Prod.snd, word ∈ lexemes text := by
  have hgap : ∀ gap ∈ lexemes " ", gap ∈ updateVocabulary := by decide
  have hblank : word ∉ lexemes " " := fun hmem => hword (hgap word hmem)
  rw [lexemes_intercalate (by decide), mem_intercalate hblank]
  constructor
  · rintro ⟨spelling, hspelling, hmem⟩
    obtain ⟨part, hpart, rfl⟩ := List.mem_map.mp hspelling
    obtain ⟨clause, _, hrender⟩ := List.mem_filterMap.mp hpart
    obtain ⟨text, htext, hmem⟩ := (mem_lexemes_clause hword clause _).mp ⟨part, hrender, hmem⟩
    exact ⟨text, List.mem_map_of_mem (mem_textsOf.mp htext), hmem⟩
  · rintro ⟨text, htext, hmem⟩
    obtain ⟨⟨clause, text⟩, htagged, rfl⟩ := List.mem_map.mp htext
    obtain ⟨part, hrender, hmem⟩ := (mem_lexemes_clause hword clause _).mpr
      ⟨text, mem_textsOf.mpr htagged, hmem⟩
    exact ⟨lexemes part, List.mem_map_of_mem
      (List.mem_filterMap.mpr ⟨clause, clause.mem_all, hrender⟩), hmem⟩

/-- A change is accounted for whatever its clause is. -/
theorem Change.accountsFor_renderTagged (change : Change) :
    AccountsFor vocabulary (fun text => [text.2]) change.renderTagged :=
  change.accounts_render

/-- The expression of an update mentions what its changes mention. -/
theorem Change.accounts_renderAll (changes : List Change) (supply : Placeholders) {word : String}
    (hword : word ∉ updateVocabulary) :
    word ∈ (Change.renderAll changes supply).2.tokens ↔
      word ∈ supply.tokens ∨ word ∈ lexemes (Change.renderAll changes supply).1 := by
  have htexts := accountsFor_mapM Prod.snd Change.accountsFor_renderTagged changes supply word
    fun hmem => hword (List.mem_append_left _ hmem)
  exact htexts.trans (or_congr_right (mem_lexemes_clauses hword _).symm)

end KeywordTable
