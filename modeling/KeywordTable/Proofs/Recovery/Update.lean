import KeywordTable.Proofs.Accounting
import KeywordTable.Proofs.Recovery
import Mathlib.Algebra.Order.Ring.Int

/-!
# Updates are recovered from their expressions

`Change.listOfExpression?` is a decoder for the expressions that `Change.renderAll`
writes.  The word of a clause says which kind of change its items are; a comma
stands between the items of a clause and between the arguments of a function, and
the arguments are taken off together before the clause looks for its next item.

Tokens are taken in the order of the changes while the text stands in the order of
the clauses.  So the proof first relates the texts to the changes one by one, in
the order of the changes and with the maps of the last state
(`forall₂_renderTagged`), and only then puts both into groups
(`forall₂_textsOf`).
-/

namespace KeywordTable

open Placeholders

/-- What is written as a function of a path and a value. -/
def assignedFunctions : List (String × (AttributePath → Value → Assigned)) :=
  [("if_not_exists", .ifNotExists), ("list_append", .appended)]

/-- What is written with a sign between a path and a value. -/
def assignedSigns : List (String × (AttributePath → Value → Assigned)) :=
  [("+", .sum), ("-", .difference)]

/-- The clause that begins with a word. -/
def Clause.ofWord? : String → Option Clause
  | "SET" => some .set
  | "REMOVE" => some .remove
  | "ADD" => some .add
  | "DELETE" => some .delete
  | _ => none

/-- Read the sign and the value behind a path. -/
def readOperand (values : ValueMap) (source : AttributePath) : Reading Assigned
  | " " :: sign :: " " :: rest => do
    let assigned ← assignedSigns.lookup sign
    let (value, rest) ← readValue values rest
    return (assigned source value, rest)
  | _ => none

/-- Read what an attribute is set to. -/
def readAssigned (names : NameMap) (values : ValueMap) : Reading Assigned
  | [] => none
  | word :: rest =>
    match assignedFunctions.lookup word, values.lookup word with
    | some assigned, _ => do
      let ((source, value), rest) ← readArguments names values rest
      return (assigned source value, rest)
    | none, some value => return (.literal value, rest)
    | none, none => do
      let (source, rest) ← readPath names (word :: rest)
      readOperand values source rest

/-- Read a change that stands in a clause. -/
def readChange (names : NameMap) (values : ValueMap) (clause : Clause) : Reading Change :=
  fun spelling => do
    let (target, rest) ← readPath names spelling
    match clause with
    | .set => do
      let rest ← rest.dropPrefix? [" ", "=", " "]
      let (assigned, rest) ← readAssigned names values rest
      return (.set target assigned, rest)
    | .remove => return (.remove target, rest)
    | .add => do
      let rest ← rest.dropPrefix? [" "]
      let (value, rest) ← readValue values rest
      return (.add target value, rest)
    | .delete => do
      let rest ← rest.dropPrefix? [" "]
      let (value, rest) ← readValue values rest
      return (.delete target value, rest)

/-- Read a clause with its changes. -/
def readClause (names : NameMap) (values : ValueMap) : Reading (List Change)
  | word :: " " :: rest => do
    let clause ← Clause.ofWord? word
    separated [",", " "] (readChange names values clause) rest
  | _ => none

/-- Read all of the clauses, of which there may be none. -/
def readClauses (names : NameMap) (values : ValueMap) (spelling : List String) :
    Option (List (List Change)) :=
  if spelling = [] then some []
  else
    match separated [" "] (readClause names values) spelling with
    | some (groups, []) => some groups
    | _ => none

/-- The changes that an expression stands for, clause by clause, given what its tokens
stand for. -/
def Change.listOfExpression? (names : NameMap) (values : ValueMap) (expression : String) :
    Option (List Change) :=
  (readClauses names values (lexemes expression)).map List.flatten

/-! ### Changes read back -/

variable {later : Placeholders}

/-- A function of a path and a value reads back. -/
theorem writes_assigned_function {opening : String} (name : String)
    (hopen : (opening, name) ∈ openings) {assigned : AttributePath → Value → Assigned}
    (hname : assignedFunctions.lookup name = some assigned) (source : AttributePath)
    (value : Value) :
    Writes later Anything
      (do
        let source ← internPath source
        let value ← internValue value
        return opening ++ source ++ ", " ++ value ++ ")")
      (readAssigned later.nameMap later.valueMap) (assigned source value) := by
  intro supply hlater rest _
  have hpath := writes_internPath source supply ((grows_internValue value _).trans hlater)
  have hvalue := writes_internValue value (internPath source supply).2 hlater
  have hread := reads_arguments hpath hvalue rest trivial
  have hspelling := lexemes_function name hopen (internPath source supply).1
    (internValue value (internPath source supply).2).1
  show readAssigned _ _ (lexemes (opening ++ (internPath source supply).1 ++ ", " ++
    (internValue value (internPath source supply).2).1 ++ ")") ++ rest) = _
  rw [hspelling]
  simp only [List.cons_append, List.append_assoc, List.nil_append] at hread ⊢
  simp [readAssigned, hname, hread]

/-- A path and a value with a sign between them read back: the token at their head is neither a
function nor a value. -/
theorem writes_assigned_sign {gap : String} (sign : String) (hsign : (gap, sign) ∈ separators)
    {assigned : AttributePath → Value → Assigned}
    (hword : assignedSigns.lookup sign = some assigned) (source : AttributePath) (value : Value) :
    Writes later Anything
      (do
        let source ← internPath source
        let value ← internValue value
        return source ++ gap ++ value)
      (readAssigned later.nameMap later.valueMap) (assigned source value) := by
  intro supply hlater rest _
  obtain ⟨place, more, hhead⟩ := lexemes_internPath_head source supply
  have hvalue := writes_internValue value (internPath source supply).2 hlater rest trivial
  have hpath := writes_internPath source supply ((grows_internValue value _).trans hlater)
    (" " :: sign :: " " :: (lexemes (internValue value (internPath source supply).2).1 ++ rest))
    (by simp [EndsBefore])
  have hfunction : assignedFunctions.lookup (nameToken place) = none :=
    lookup_nameToken place (by decide)
  have hliteral : later.valueMap.lookup (nameToken place) = none :=
    lookup_valueMap_eq_none later (by simp [nameToken])
  have hspelling := lexemes_sign sign hsign (internPath source supply).1
    (internValue value (internPath source supply).2).1
  show readAssigned _ _ (lexemes ((internPath source supply).1 ++ gap ++
    (internValue value (internPath source supply).2).1) ++ rest) = _
  rw [hspelling]
  rw [hhead] at hpath ⊢
  simp only [List.cons_append, List.append_assoc] at hpath ⊢
  simp [readAssigned, hfunction, hliteral, hpath, readOperand, hword, hvalue]

/-- A literal reads back. -/
theorem writes_literal (value : Value) :
    Writes later Anything (internValue value) (readAssigned later.nameMap later.valueMap)
      (.literal value) := by
  intro supply hlater rest _
  have htoken : lexemes (internValue value supply).1 = [(internValue value supply).1] :=
    lexemes_valueToken _
  have hlookup := lookup_internValue hlater
  have hfunction : assignedFunctions.lookup (internValue value supply).1 = none :=
    lookup_valueToken _ (by decide)
  simp [htoken, readAssigned, hlookup, hfunction]

/-- What an attribute is set to reads back. -/
theorem writes_assigned (assigned : Assigned) :
    Writes later Anything assigned.render (readAssigned later.nameMap later.valueMap)
      assigned := by
  cases assigned with
  | literal value => exact writes_literal value
  | ifNotExists source value =>
      exact writes_assigned_function "if_not_exists" (by decide) rfl source value
  | sum source value => exact writes_assigned_sign "+" (by decide) rfl source value
  | difference source value => exact writes_assigned_sign "-" (by decide) rfl source value
  | appended source value =>
      exact writes_assigned_function "list_append" (by decide) rfl source value

/-- **Changes read back** in their clause. -/
theorem writes_change (change : Change) :
    Writes later (EndsBefore ["."]) change.render
      (readChange later.nameMap later.valueMap change.clause) change := by
  intro supply hlater rest hrest
  cases change with
  | set target assigned =>
      have hassigned := writes_assigned assigned (internPath target supply).2 hlater rest trivial
      have htarget := writes_internPath target supply
        ((assigned.grows_render _).trans hlater)
        (" " :: "=" :: " " :: (lexemes (assigned.render (internPath target supply).2).1 ++ rest))
        (by simp [EndsBefore])
      have hspelling : lexemes ((Change.set target assigned).render supply).1 = _ :=
        lexemes_sign "=" (by decide) (internPath target supply).1
          (assigned.render (internPath target supply).2).1
      simp [hspelling, readChange, Change.clause, htarget, List.dropPrefix?, hassigned]
  | remove target =>
      have htarget := writes_internPath target supply hlater rest hrest
      simp [Change.render, readChange, Change.clause, htarget]
  | add target value | delete target value =>
      have hvalue := writes_internValue value (internPath target supply).2 hlater rest trivial
      have htarget := writes_internPath target supply ((grows_internValue value _).trans hlater)
        (" " :: (lexemes (internValue value (internPath target supply).2).1 ++ rest))
        (by simp [EndsBefore])
      have hspelling : lexemes ((internPath target supply).1 ++ " " ++
          (internValue value (internPath target supply).2).1) = _ := lexemes_blank _ _
      show readChange later.nameMap later.valueMap _ (lexemes ((internPath target supply).1 ++
        " " ++ (internValue value (internPath target supply).2).1) ++ rest) = _
      simp [hspelling, readChange, Change.clause, htarget, List.dropPrefix?, hvalue]

/-! ### Groups -/

/-- The changes that stand in a clause, in order. -/
def Change.inClause (clause : Clause) (changes : List Change) : List Change :=
  changes.filter fun change => change.clause = clause

/-- Every text has the clause of its change and reads back in it. -/
theorem forall₂_renderTagged (changes : List Change) (supply : Placeholders)
    (hlater : (changes.mapM Change.renderTagged supply).2.Reaches later) :
    List.Forall₂ (fun text change => text.1 = change.clause ∧
        Reads (EndsBefore ["."]) (readChange later.nameMap later.valueMap change.clause)
          (lexemes text.2) change)
      (changes.mapM Change.renderTagged supply).1 changes := by
  have hgrows : ∀ change : Change, Grows change.renderTagged :=
    fun change => (change.takes_render.map _).grows
  exact forall₂_mapM hgrows
    (fun change supply hreach => ⟨rfl, writes_change change supply hreach⟩) changes supply hlater

/-- The texts of a clause read back as its changes. -/
theorem forall₂_textsOf {texts : List (Clause × String)} {changes : List Change}
    (h : List.Forall₂ (fun text change => text.1 = change.clause ∧
        Reads (EndsBefore ["."]) (readChange later.nameMap later.valueMap change.clause)
          (lexemes text.2) change) texts changes) (clause : Clause) :
    List.Forall₂ (Reads (EndsBefore ["."]) (readChange later.nameMap later.valueMap clause))
      ((Change.textsOf clause texts).map lexemes) (Change.inClause clause changes) := by
  induction h with
  | nil => exact List.Forall₂.nil
  | @cons text change texts changes hfirst hrest ih =>
      obtain ⟨htag, hread⟩ := hfirst
      unfold Change.textsOf Change.inClause at ih ⊢
      by_cases hclause : change.clause = clause
      · subst hclause
        rw [List.filter_cons_of_pos (by simp [htag]), List.filter_cons_of_pos (by simp)]
        exact List.Forall₂.cons hread ih
      · rw [List.filter_cons_of_neg (by simp [htag, hclause]),
          List.filter_cons_of_neg (by simp [hclause])]
        exact ih

/-- The word of a clause reads back. -/
theorem Clause.ofWord?_word (clause : Clause) : Clause.ofWord? clause.word = some clause := by
  cases clause <;> rfl

/-- What stands behind a clause begins with neither a dot nor a comma. -/
def EndsClause : List String → Prop :=
  fun rest => EndsBefore ["."] rest ∧ EndsBefore [",", " "] rest

/-- A clause with changes reads back. -/
theorem reads_clause {clause : Clause} {texts : List String} {changes : List Change}
    (hall : List.Forall₂
      (Reads (EndsBefore ["."]) (readChange later.nameMap later.valueMap clause))
      (texts.map lexemes) changes) (hne : changes ≠ []) :
    Reads EndsClause (readClause later.nameMap later.valueMap)
      (lexemes (clause.word ++ " " ++ ", ".intercalate texts)) changes := by
  intro rest hrest
  have hread := reads_separated [",", " "] (by simp) (by simp [EndsBefore]) hall hne rest hrest
  simp [lexemes_clause, readClause, clause.ofWord?_word, hread]

/-- The clauses that are written read back as the groups that are not empty. -/
theorem forall₂_clauses {texts : List (Clause × String)} {changes : List Change}
    (h : ∀ clause, List.Forall₂
      (Reads (EndsBefore ["."]) (readChange later.nameMap later.valueMap clause))
      ((Change.textsOf clause texts).map lexemes) (Change.inClause clause changes))
    (clauses : List Clause) :
    List.Forall₂ (Reads EndsClause (readClause later.nameMap later.valueMap))
      ((clauses.filterMap fun clause => clause.render? (Change.textsOf clause texts)).map lexemes)
      ((clauses.map fun clause => Change.inClause clause changes).filter (!·.isEmpty)) := by
  induction clauses with
  | nil => exact List.Forall₂.nil
  | cons clause clauses ih =>
      have hlength := (h clause).length_eq
      rw [List.length_map] at hlength
      rw [List.map_cons, List.filterMap_cons, Clause.render?]
      by_cases hempty : Change.inClause clause changes = []
      · have htexts : Change.textsOf clause texts = [] :=
          List.length_eq_zero_iff.mp (hlength.trans (List.length_eq_zero_iff.mpr hempty))
        rw [hempty, htexts]
        exact ih
      · have htexts : Change.textsOf clause texts ≠ [] := fun hnil =>
          hempty (List.length_eq_zero_iff.mp
            (hlength.symm.trans (List.length_eq_zero_iff.mpr hnil)))
        rw [if_neg (by simp [htexts]), List.filter_cons_of_pos (by simp [hempty])]
        exact List.Forall₂.cons (reads_clause (h clause) hempty) ih

/-- Clauses that read back one by one read back together. -/
theorem readClauses_intercalate {spellings : List (List String)} {groups : List (List Change)}
    (hall : List.Forall₂ (Reads EndsClause (readClause later.nameMap later.valueMap))
      spellings groups) :
    readClauses later.nameMap later.valueMap ([" "].intercalate spellings) = some groups := by
  by_cases hnil : groups = []
  · rw [hnil, List.forall₂_nil_right_iff] at hall
    rw [hnil, hall]
    rfl
  · have hread := reads_separated [" "] (by simp) (by simp [EndsClause, EndsBefore]) hall hnil []
      (by simp [EndsClause, EndsBefore])
    rw [List.append_nil] at hread
    have hsome : [" "].intercalate spellings ≠ [] := by
      intro hempty
      rw [hempty] at hread
      exact absurd hread (by simp [separated, separatedWithin, readClause])
    rw [readClauses, if_neg hsome, hread]

/-- The expression of an update is spelled clause by clause. -/
theorem lexemes_renderAll (changes : List Change) (supply : Placeholders) :
    lexemes (Change.renderAll changes supply).1 =
      [" "].intercalate ((Clause.all.filterMap fun clause => clause.render?
        (Change.textsOf clause (changes.mapM Change.renderTagged supply).1)).map lexemes) := by
  have hblank : lexemes " " = [" "] := by decide
  exact hblank ▸ lexemes_intercalate (by decide) _

/-- The expression of an update stands for its changes, clause by clause. -/
theorem Change.listOfExpression?_of_reaches (changes : List Change) {supply : Placeholders}
    (hlater : (Change.renderAll changes supply).2.Reaches later) :
    Change.listOfExpression? later.nameMap later.valueMap (Change.renderAll changes supply).1 =
      some (Clause.all.flatMap fun clause => Change.inClause clause changes) := by
  have hclauses := forall₂_clauses
    (forall₂_textsOf (forall₂_renderTagged changes supply hlater)) Clause.all
  rw [Change.listOfExpression?, lexemes_renderAll, readClauses_intercalate hclauses,
    Option.map_some, List.flatten_filter_not_isEmpty, List.flatMap_def]

/-! ### The words of the clauses -/

/-- The number of times a word stands in parts with gaps between them. -/
theorem count_intercalate {gap : List String} {word : String} (h : word ∉ gap)
    (parts : List (List String)) :
    (gap.intercalate parts).count word = (parts.map (List.count word)).sum := by
  induction parts with
  | nil => simp
  | cons part parts ih =>
      cases parts with
      | nil => simp
      | cons next parts =>
          rw [List.intercalate_cons_cons, List.count_append, List.count_append, ih,
            List.count_eq_zero_of_not_mem h]
          simp

/-- No two clauses begin with the same word. -/
theorem Clause.word_injective {clause other : Clause} (h : clause.word = other.word) :
    clause = other := by
  have hword := Clause.ofWord?_word clause
  rw [h, Clause.ofWord?_word other] at hword
  exact (Option.some.inj hword).symm

/-- The words of the clauses stand in no change. -/
theorem not_mem_lexemes_renderTagged (clause : Clause) (changes : List Change)
    (supply : Placeholders) :
    ∀ text ∈ (changes.mapM Change.renderTagged supply).1, clause.word ∉ lexemes text.2 := by
  have hwords : clause.word ∉ vocabulary := by cases clause <;> decide
  have htoken : clause.word ∉ (changes.mapM Change.renderTagged supply).2.tokens := by
    cases clause <;> exact not_mem_tokens _ (by decide) (by decide)
  have hlaw := accountsFor_mapM Prod.snd Change.accountsFor_renderTagged changes supply _ hwords
  intro text htext hmem
  exact htoken (hlaw.mpr (Or.inr ⟨text.2, List.mem_map_of_mem htext, hmem⟩))

/-- The word of a clause stands once in its own clause and in no other. -/
theorem count_word_clause (clause other : Clause) {texts : List String}
    (h : ∀ text ∈ texts, clause.word ∉ lexemes text) :
    (lexemes (other.word ++ " " ++ ", ".intercalate texts)).count clause.word =
      if other = clause then 1 else 0 := by
  have hfree : clause.word ∉ [",", " "] ∧ clause.word ≠ " " := by cases clause <;> decide
  have hitems : ([",", " "].intercalate (texts.map lexemes)).count clause.word = 0 := by
    refine List.count_eq_zero_of_not_mem fun hmem => ?_
    obtain ⟨spelling, hspelling, hmem⟩ := (mem_intercalate hfree.1 _).mp hmem
    obtain ⟨text, htext, rfl⟩ := List.mem_map.mp hspelling
    exact h text htext hmem
  rw [lexemes_clause, List.count_cons, List.count_cons, hitems]
  by_cases hsame : other = clause
  · simp [hsame, hfree.2.symm]
  · have hword : other.word ≠ clause.word := fun hword => hsame (Clause.word_injective hword)
    simp [hsame, hword, hfree.2.symm]

/-- The word of a clause stands in the text as often as clauses with this name are
written. -/
theorem count_word_clauses (clause : Clause) {texts : List (Clause × String)}
    (h : ∀ text ∈ texts, clause.word ∉ lexemes text.2) (clauses : List Clause) :
    ((((clauses.filterMap fun other => other.render? (Change.textsOf other texts)).map
        lexemes).map (List.count clause.word)).sum) =
      if Change.textsOf clause texts = [] then 0 else clauses.count clause := by
  induction clauses with
  | nil => simp
  | cons other clauses ih =>
      have hother : ∀ text ∈ Change.textsOf other texts, clause.word ∉ lexemes text :=
        fun text htext => h _ (mem_textsOf.mp htext)
      rw [List.filterMap_cons, Clause.render?]
      by_cases hempty : Change.textsOf other texts = []
      · rw [if_pos (by simp [hempty])]
        by_cases hsame : other = clause
        · subst hsame
          simpa [hempty] using ih
        · simpa [List.count_cons, hsame] using ih
      · rw [if_neg (by simp [hempty]), List.map_cons, List.map_cons, List.sum_cons, ih,
          count_word_clause clause other hother, List.count_cons]
        by_cases hsame : other = clause
        · subst hsame
          simp [hempty, Nat.add_comm]
        · simp [hsame]

/-- A clause is written if there is a change in it. -/
theorem textsOf_eq_nil_iff (clause : Clause) (changes : List Change) (supply : Placeholders) :
    Change.textsOf clause (changes.mapM Change.renderTagged supply).1 = [] ↔
      Change.inClause clause changes = [] := by
  have hread := forall₂_textsOf
    (forall₂_renderTagged changes supply (Reaches.refl _)) clause
  have hlength := hread.length_eq
  rw [List.length_map] at hlength
  rw [← List.length_eq_zero_iff, hlength, List.length_eq_zero_iff]

/-- The groups hold every change as often as the update does. -/
theorem inClause_perm (changes : List Change) :
    (Change.inClause .set changes ++ Change.inClause .remove changes ++
      Change.inClause .add changes ++ Change.inClause .delete changes).Perm changes := by
  rw [List.perm_iff_count]
  intro change
  have hcount : ∀ clause, (Change.inClause clause changes).count change =
      if change.clause = clause then changes.count change else 0 := by
    intro clause
    unfold Change.inClause
    split
    · next hclause => exact List.count_filter (by simpa using hclause)
    · next hclause => exact List.count_eq_zero_of_not_mem (by simp [hclause])
  simp only [List.count_append, hcount]
  cases change.clause <;> simp

/-- **Updates are recovered from their expressions.**  Whatever tokens are in use
already and whichever are taken afterwards, the expression stands for the changes of
the update: all that set, then all that remove, then all that add, then all that
delete, each group in the order of the update and each change as often as it is
there.  The word of a clause is written once if there is a change in it, and not at
all otherwise. -/
theorem Change.listOfExpression?_renderAll (changes : List Change) (supply later : Placeholders)
    (hlater : (Change.renderAll changes supply).2.Reaches later) :
    let groups := Change.inClause .set changes ++ Change.inClause .remove changes ++
      Change.inClause .add changes ++ Change.inClause .delete changes
    let expression := (Change.renderAll changes supply).1
    Change.listOfExpression? later.nameMap later.valueMap expression = some groups ∧
      groups.Perm changes ∧
      ∀ clause : Clause, (lexemes expression).count clause.word =
        if Change.inClause clause changes = [] then 0 else 1 := by
  intro groups expression
  refine ⟨?_, inClause_perm changes, fun clause => ?_⟩
  · rw [Change.listOfExpression?_of_reaches changes hlater]
    simp [Clause.all, groups]
  · have hgap : clause.word ∉ [" "] := by cases clause <;> decide
    have honce : Clause.all.count clause = 1 := by cases clause <;> decide
    rw [lexemes_renderAll, count_intercalate hgap,
      count_word_clauses clause (not_mem_lexemes_renderTagged clause changes supply), honce]
    simp only [textsOf_eq_nil_iff]

/-- Three clauses with five changes, in an order other than the text's, and a supply
that gave the name `b` and the value 1 away before. -/
theorem Change.listOfExpression?_regrouped :
    let a : AttributePath := ⟨["a"], by decide, by decide⟩
    let b : AttributePath := ⟨["b", "c"], by decide, by decide⟩
    let changes : List Change :=
      [.add a (.number "1"), .set b (.ifNotExists a (.text "x")), .remove a,
        .set a (.sum b (.number "2")), .add b (.number "2")]
    let supply : Placeholders := { names := ["b"], values := [.number "1"] }
    let expression := "SET #n0.#n2 = if_not_exists(#n1, :v1), #n1 = #n0.#n2 + :v2 REMOVE #n1 " ++
      "ADD #n1 :v0, #n0.#n2 :v2"
    let later := (internName "d" (Change.renderAll changes supply).2).2
    (Change.renderAll changes supply).1 = expression ∧
      Change.listOfExpression? later.nameMap later.valueMap expression =
        some [.set b (.ifNotExists a (.text "x")), .set a (.sum b (.number "2")), .remove a,
          .add a (.number "1"), .add b (.number "2")] ∧
      (lexemes expression).count "ADD" = 1 ∧ (lexemes expression).count "DELETE" = 0 := by
  intro a b changes supply expression later
  have htext : (Change.renderAll changes supply).1 = expression := by decide +kernel
  have hlater : (Change.renderAll changes supply).2.Reaches later := grows_internName "d" _
  obtain ⟨hread, _, hcount⟩ := Change.listOfExpression?_renderAll changes supply later hlater
  rw [htext] at hread hcount
  exact ⟨htext, hread, hcount .add, hcount .delete⟩

end KeywordTable
