import KeywordTable.Proofs.Recovery

/-!
# Conditions are recovered from their expressions

`Condition.ofExpression?` is a decoder for the expressions that `Condition.render`
writes.  It knows nothing of the renderer but its grammar: the word `AND` stands
between the ends of a range and between the parts of a conjunction, and only a
conjunction inside another one is in parentheses.

The induction follows the tree (`reads_part`).  Its invariant is that the spelling
of a part is taken off exactly, **whatever** follows, for every supply the part is
written with and every later state the maps are taken from.  The range takes its
own `AND` before the conjunction looks for one, so the two are never confused.

The depth of the reader is the length of the expression; each pair of parentheses
takes at least two lexemes, so it always suffices.
-/

namespace KeywordTable

open Placeholders

/-- The comparison that is written with a symbol. -/
def Comparison.ofSymbol? : String → Option Comparison
  | "=" => some .equal
  | "<>" => some .notEqual
  | "<" => some .less
  | "<=" => some .lessOrEqual
  | ">" => some .greater
  | ">=" => some .greaterOrEqual
  | _ => none

/-- The tests that are written as functions of a path. -/
def presences : List (String × Test) :=
  [("attribute_exists", .present), ("attribute_not_exists", .absent)]

/-- The tests that are written as functions of a path and an operand. -/
def testFunctions : List (String × (Value → Test)) :=
  [("begins_with", .beginsWith), ("contains", .contains)]

/-- Read the ends of a range. -/
def readRange (values : ValueMap) : Reading Test := fun spelling => do
  let (low, rest) ← readValue values spelling
  let rest ← rest.dropPrefix? [" ", "AND", " "]
  let (high, rest) ← readValue values rest
  return (.between low high, rest)

/-- Read a list of alternatives, which may be empty. -/
def readAlternatives (values : ValueMap) : Reading Test := fun spelling => do
  let rest ← spelling.dropPrefix? ["("]
  match rest.dropPrefix? [")"] with
  | some rest => return (.among [], rest)
  | none => do
    let (operands, rest) ← separated [",", " "] (readValue values) rest
    let rest ← rest.dropPrefix? [")"]
    return (.among operands, rest)

/-- Read what is said of a path behind it. -/
def readRelation (values : ValueMap) : Reading Test
  | " " :: word :: " " :: rest =>
    match Comparison.ofSymbol? word with
    | some comparison => do
      let (operand, rest) ← readValue values rest
      return (.compare comparison operand, rest)
    | none =>
      if word = "BETWEEN" then readRange values rest
      else if word = "IN" then readAlternatives values rest
      else none
  | _ => none

/-- Read a test of an attribute. -/
def readTest (names : NameMap) (values : ValueMap) : Reading Condition
  | [] => none
  | word :: rest =>
    match presences.lookup word, testFunctions.lookup word with
    | some asked, _ => do
      let (path, rest) ← readArgument names rest
      return (.test path asked, rest)
    | none, some asked => do
      let ((path, operand), rest) ← readArguments names values rest
      return (.test path (asked operand), rest)
    | none, none => do
      let (path, rest) ← readPath names (word :: rest)
      let (asked, rest) ← readRelation values rest
      return (.test path asked, rest)

/-- Read a part of a conjunction, given how to read a conjunction inside of it. -/
def readPart (names : NameMap) (values : ValueMap) (inner : Reading (List Condition)) :
    Reading Condition
  | "(" :: rest => do
    let (parts, rest) ← inner rest
    let rest ← rest.dropPrefix? [")"]
    return (.all parts, rest)
  | spelling => readTest names values spelling

/-- Read the parts of a conjunction, of which some are conjunctions again. -/
def readParts (names : NameMap) (values : ValueMap) : Nat → Reading (List Condition)
  | 0 => fun _ => none
  | depth + 1 => separated [" ", "AND", " "] (readPart names values (readParts names values depth))

/-- The condition that an expression stands for, given what its tokens stand for.
Conjunctions are nested less deep than the expression is long. -/
def Condition.ofExpression? (names : NameMap) (values : ValueMap) (expression : String) :
    Option Condition :=
  let spelling := lexemes expression
  match readParts names values (spelling.length + 1) spelling with
  | some (parts, []) => Condition.allOf parts
  | _ => none

/-! ### Tests -/

/-- The symbol of a comparison reads back. -/
theorem Comparison.ofSymbol?_symbol (comparison : Comparison) :
    Comparison.ofSymbol? comparison.symbol = some comparison := by
  cases comparison <;> rfl

/-! ### Tests read back -/

variable {later : Placeholders}

/-- A path with what is said of it reads back: it begins with a token and is not taken for a
function. -/
theorem reads_relation {path : AttributePath} {supply : Placeholders}
    (hlater : (internPath path supply).2.Reaches later) {spelling : List String} {asked : Test}
    (hread : Reads Anything (readRelation later.valueMap) (" " :: spelling) asked) :
    Reads Anything (readTest later.nameMap later.valueMap)
      (lexemes (internPath path supply).1 ++ " " :: spelling) (.test path asked) := by
  intro rest _
  obtain ⟨place, more, hhead⟩ := lexemes_internPath_head path supply
  have hpresence : presences.lookup (nameToken place) = none := lookup_nameToken place (by decide)
  have hfunction : testFunctions.lookup (nameToken place) = none :=
    lookup_nameToken place (by decide)
  have hpath := writes_internPath path supply hlater (" " :: spelling ++ rest)
    (by simp [EndsBefore])
  rw [hhead] at hpath ⊢
  simp only [List.cons_append, List.append_assoc] at hpath ⊢
  have hrelation := hread rest trivial
  simp only [List.cons_append] at hrelation
  simp [readTest, hpresence, hfunction, hpath, hrelation]

/-- A comparison reads back behind its path. -/
theorem reads_compare (comparison : Comparison) {spelling : List String} {operand : Value}
    (hvalue : Reads Anything (readValue later.valueMap) spelling operand) :
    Reads Anything (readRelation later.valueMap) (" " :: comparison.symbol :: " " :: spelling)
      (.compare comparison operand) := by
  intro rest _
  simp [readRelation, Comparison.ofSymbol?_symbol, hvalue rest trivial]

/-- A range reads back behind its path. -/
theorem reads_between {lowSpelling highSpelling : List String} {low high : Value}
    (hlow : Reads Anything (readValue later.valueMap) lowSpelling low)
    (hhigh : Reads Anything (readValue later.valueMap) highSpelling high) :
    Reads Anything (readRelation later.valueMap)
      (" " :: "BETWEEN" :: " " :: (lowSpelling ++ " " :: "AND" :: " " :: highSpelling))
      (.between low high) := by
  intro rest _
  simp [readRelation, Comparison.ofSymbol?, readRange, List.dropPrefix?, hlow _ trivial,
    hhigh rest trivial]

/-- A list of values reads back behind its path: it begins with a token and is not taken for an
empty one. -/
theorem reads_among {spellings : List (List String)} {operands : List Value}
    (hhead : ∀ spelling ∈ spellings, ∃ place, spelling = [valueToken place])
    (hall : List.Forall₂ (Reads Anything (readValue later.valueMap)) spellings operands) :
    Reads Anything (readRelation later.valueMap)
      (" " :: "IN" :: " " :: "(" :: ([",", " "].intercalate spellings ++ [")"]))
      (.among operands) := by
  intro rest _
  cases hall with
  | nil => simp [readRelation, Comparison.ofSymbol?, readAlternatives, List.dropPrefix?]
  | @cons spelling operand spellings operands hfirst hall =>
      obtain ⟨place, rfl⟩ := hhead spelling List.mem_cons_self
      have hread := reads_separated [",", " "] (by simp) (fun _ => trivial)
        (List.Forall₂.cons hfirst hall) (by simp) (")" :: rest) ⟨trivial, by simp [EndsBefore]⟩
      have hopen : valueToken place ≠ ")" := valueToken_ne place ")" (by decide)
      rw [List.intercalate_cons_cons_left] at hread ⊢
      simp only [List.cons_append, List.append_assoc] at hread ⊢
      simp [readRelation, Comparison.ofSymbol?, readAlternatives, List.dropPrefix?, hopen, hread]

/-- A function of a path reads back. -/
theorem writes_presence {opening : String} (name : String) (hopen : (opening, name) ∈ openings)
    {asked : Test} (hname : presences.lookup name = some asked) (path : AttributePath) :
    Writes later Anything
      (do
        let path ← internPath path
        return opening ++ path ++ ")")
      (readTest later.nameMap later.valueMap) (.test path asked) := by
  intro supply hlater rest _
  have hread := reads_argument (writes_internPath path supply hlater) rest trivial
  have hspelling := lexemes_presence name hopen (internPath path supply).1
  show readTest _ _ (lexemes (opening ++ (internPath path supply).1 ++ ")") ++ rest) = _
  rw [hspelling]
  simp only [List.cons_append, List.append_assoc, List.nil_append] at hread ⊢
  simp [readTest, hname, hread]

/-- A function of a path and an operand reads back. -/
theorem writes_function {opening : String} (name : String) (hopen : (opening, name) ∈ openings)
    {asked : Value → Test} (hname : testFunctions.lookup name = some asked)
    (hother : presences.lookup name = none) (path : AttributePath) (operand : Value) :
    Writes later Anything
      (do
        let path ← internPath path
        let operand ← internValue operand
        return opening ++ path ++ ", " ++ operand ++ ")")
      (readTest later.nameMap later.valueMap) (.test path (asked operand)) := by
  intro supply hlater rest _
  have hpath := writes_internPath path supply ((grows_internValue operand _).trans hlater)
  have hvalue := writes_internValue operand (internPath path supply).2 hlater
  have hread := reads_arguments hpath hvalue rest trivial
  have hspelling := lexemes_function name hopen (internPath path supply).1
    (internValue operand (internPath path supply).2).1
  show readTest _ _ (lexemes (opening ++ (internPath path supply).1 ++ ", " ++
    (internValue operand (internPath path supply).2).1 ++ ")") ++ rest) = _
  rw [hspelling]
  simp only [List.cons_append, List.append_assoc, List.nil_append] at hread ⊢
  simp [readTest, hname, hother, hread]

/-- **Tests read back.** -/
theorem writes_test (path : AttributePath) (asked : Test) :
    Writes later Anything (Condition.test path asked).render
      (readTest later.nameMap later.valueMap) (.test path asked) := by
  intro supply hlater
  have hreach : (internPath path supply).2.Reaches later :=
    (Test.grows_render _ asked _).trans hlater
  cases asked with
  | compare comparison operand =>
      have hvalue := writes_internValue operand (internPath path supply).2 hlater
      have hspelling := lexemes_compare (internPath path supply).1
        (internValue operand (internPath path supply).2).1 comparison
      exact hspelling ▸ reads_relation hreach (reads_compare comparison hvalue)
  | between low high =>
      have hlow := writes_internValue low (internPath path supply).2
        ((grows_internValue high _).trans hlater)
      have hhigh := writes_internValue high (internValue low (internPath path supply).2).2 hlater
      have hspelling := lexemes_between (internPath path supply).1
        (internValue low (internPath path supply).2).1
        (internValue high (internValue low (internPath path supply).2).2).1
      exact hspelling ▸ reads_relation hreach (reads_between hlow hhigh)
  | among operands =>
      have hvalues := reads_mapM grows_internValue writes_internValue operands
        (internPath path supply).2 hlater
      have htokens : ∀ spelling ∈
          (operands.mapM internValue (internPath path supply).2).1.map lexemes,
          ∃ place, spelling = [valueToken place] := by
        intro spelling hmem
        obtain ⟨text, htext, rfl⟩ := List.mem_map.mp hmem
        obtain ⟨place, rfl⟩ := exists_valueToken_of_mem htext
        exact ⟨place, lexemes_valueToken place⟩
      have hspelling := lexemes_among (internPath path supply).1
        (", ".intercalate (operands.mapM internValue (internPath path supply).2).1)
      rw [lexemes_intercalate (by decide)] at hspelling
      exact hspelling ▸ reads_relation hreach (reads_among htokens hvalues)
  | beginsWith operand =>
      exact writes_function "begins_with" (by decide) rfl rfl path operand supply hlater
  | contains operand =>
      exact writes_function "contains" (by decide) rfl rfl path operand supply hlater
  | present => exact writes_presence "attribute_exists" (by decide) rfl path supply hlater
  | absent => exact writes_presence "attribute_not_exists" (by decide) rfl path supply hlater

/-! ### Conjunctions read back -/

/-- Every conjunction in the condition joins at least two parts. -/
inductive Condition.Joined : Condition → Prop
  | test (path : AttributePath) (asked : Test) : Joined (.test path asked)
  | all {conditions : List Condition} (two : 2 ≤ conditions.length)
      (each : ∀ condition ∈ conditions, Joined condition) : Joined (.all conditions)

/-- What begins with a parenthesis is no test. -/
theorem readTest_open (rest : List String) :
    readTest later.nameMap later.valueMap ("(" :: rest) = none := by
  have hopen : later.nameMap.lookup "(" = none := lookup_nameMap_eq_none later (by decide)
  have hpath : readPath later.nameMap ("(" :: rest) = none := by
    simp [readPath, separated, separatedWithin, readName, hopen]
  have hpresence : presences.lookup "(" = none := rfl
  have hfunction : testFunctions.lookup "(" = none := rfl
  simp [readTest, hpresence, hfunction, hpath]

/-- A test reads back as a part of a conjunction. -/
theorem reads_part_of_test {ends : List String → Prop} {spelling : List String}
    {condition : Condition} (inner : Reading (List Condition))
    (h : Reads ends (readTest later.nameMap later.valueMap) spelling condition) :
    Reads ends (readPart later.nameMap later.valueMap inner) spelling condition := by
  intro rest hrest
  have hread := h rest hrest
  unfold readPart
  split
  · next hopen =>
      rw [hopen, readTest_open] at hread
      exact absurd hread (by simp)
  · exact hread

/-- The parts of a conjunction read back one by one, if each of them does. -/
theorem forall₂_renderEach {read : Reading Condition} {depth : Nat}
    (conditions : List Condition)
    (hparts : ∀ condition ∈ conditions, ∀ supply, (condition.render supply).2.Reaches later →
      (lexemes (condition.enclose (condition.render supply).1)).length ≤ depth →
      Reads Anything read (lexemes (condition.enclose (condition.render supply).1)) condition)
    (supply : Placeholders) (hlater : (Condition.renderEach conditions supply).2.Reaches later)
    (hdepth : ∀ text ∈ (Condition.renderEach conditions supply).1,
      (lexemes text).length ≤ depth) :
    List.Forall₂ (Reads Anything read)
      ((Condition.renderEach conditions supply).1.map lexemes) conditions := by
  induction conditions generalizing supply with
  | nil => exact List.Forall₂.nil
  | cons condition conditions ih =>
      rw [Condition.renderEach] at hlater hdepth ⊢
      have htail := Condition.grows_renderEach conditions (condition.render supply).2
      refine List.Forall₂.cons ?_ ?_
      · exact hparts condition List.mem_cons_self supply (htail.trans hlater)
          (hdepth _ List.mem_cons_self)
      · exact ih (fun c hc => hparts c (List.mem_cons_of_mem _ hc)) _ hlater
          fun text htext => hdepth text (List.mem_cons_of_mem _ htext)

/-- The parts of a conjunction that is spelled in at most `depth` lexemes read back. -/
theorem reads_parts {conditions : List Condition} (hne : conditions ≠ []) {depth : Nat}
    (hparts : ∀ condition ∈ conditions, ∀ supply, (condition.render supply).2.Reaches later →
      (lexemes (condition.enclose (condition.render supply).1)).length ≤ depth →
      Reads Anything (readPart later.nameMap later.valueMap
        (readParts later.nameMap later.valueMap depth))
        (lexemes (condition.enclose (condition.render supply).1)) condition)
    {supply : Placeholders} (hlater : (Condition.renderEach conditions supply).2.Reaches later)
    (hdepth : ([" ", "AND", " "].intercalate
      ((Condition.renderEach conditions supply).1.map lexemes)).length ≤ depth) :
    Reads (EndsBefore [" ", "AND", " "])
      (readParts later.nameMap later.valueMap (depth + 1))
      ([" ", "AND", " "].intercalate ((Condition.renderEach conditions supply).1.map lexemes))
      conditions := by
  have hall := forall₂_renderEach conditions hparts supply hlater fun text htext =>
    Nat.le_trans (length_le_of_mem_intercalate (List.mem_map_of_mem htext)) hdepth
  exact (reads_separated [" ", "AND", " "] (by simp) (fun _ => trivial) hall hne).mono
    fun _ hrest => ⟨trivial, hrest⟩

/-- **Parts of conjunctions read back**, however deep they are nested; each pair of parentheses
takes two lexemes, so a smaller depth suffices inside. -/
theorem reads_part {condition : Condition} (h : condition.Joined) (depth : Nat)
    (supply : Placeholders) (hlater : (condition.render supply).2.Reaches later)
    (hdepth : (lexemes (condition.enclose (condition.render supply).1)).length ≤ depth) :
    Reads Anything (readPart later.nameMap later.valueMap
      (readParts later.nameMap later.valueMap depth))
      (lexemes (condition.enclose (condition.render supply).1)) condition := by
  induction h generalizing depth supply with
  | test path asked => exact reads_part_of_test _ (writes_test path asked supply hlater)
  | @all conditions two each ih =>
      have hne : conditions ≠ [] := by
        rintro rfl
        simp at two
      have hlater' : (Condition.renderEach conditions supply).2.Reaches later := by
        rw [Condition.render] at hlater
        exact hlater
      have hspelling : lexemes ((Condition.all conditions).enclose
          ((Condition.all conditions).render supply).1) =
          "(" :: ([" ", "AND", " "].intercalate
            ((Condition.renderEach conditions supply).1.map lexemes) ++ [")"]) := by
        rw [Condition.render, ← lexemes_conjunction]
        exact lexemes_enclosed _
      rw [hspelling] at hdepth ⊢
      simp only [List.length_cons, List.length_append] at hdepth
      obtain ⟨depth, rfl⟩ : ∃ d, depth = d + 1 := ⟨depth - 1, by omega⟩
      intro rest _
      have hread := reads_parts hne (fun c hc supply hreach => ih c hc depth supply hreach)
        hlater' (by omega) (")" :: rest) (by simp [EndsBefore])
      simp [readPart, hread, List.dropPrefix?]

/-- Several conditions joined stand for their conjunction. -/
theorem Condition.allOf_of_two_le {conditions : List Condition} (h : 2 ≤ conditions.length) :
    Condition.allOf conditions = some (.all conditions) := by
  match conditions, h with
  | _ :: _ :: _, _ => rfl

/-- The expression of a condition stands for the condition. -/
theorem Condition.ofExpression?_of_reaches {condition : Condition} (h : condition.Joined)
    {supply : Placeholders} (hlater : (condition.render supply).2.Reaches later) :
    Condition.ofExpression? later.nameMap later.valueMap (condition.render supply).1 =
      some condition := by
  cases h with
  | test path asked =>
      have hpart := reads_part_of_test (readParts later.nameMap later.valueMap
        (lexemes ((Condition.test path asked).render supply).1).length)
        (writes_test path asked supply hlater)
      have hread := reads_separated [" ", "AND", " "] (by simp) (fun _ => trivial)
        (List.Forall₂.cons hpart List.Forall₂.nil) (by simp) [] ⟨trivial, by simp [EndsBefore]⟩
      rw [List.intercalate_singleton, List.append_nil] at hread
      simp [Condition.ofExpression?, readParts, hread, Condition.allOf]
  | @all conditions two each =>
      have hne : conditions ≠ [] := by
        rintro rfl
        simp at two
      have hspelling : lexemes ((Condition.all conditions).render supply).1 =
          [" ", "AND", " "].intercalate
            ((Condition.renderEach conditions supply).1.map lexemes) := by
        rw [Condition.render]
        exact lexemes_conjunction _
      rw [Condition.render] at hlater
      have hread := reads_parts hne
        (fun condition hc supply hreach => reads_part (each condition hc) _ supply hreach)
        hlater (Nat.le_refl _) [] (by simp [EndsBefore])
      rw [List.append_nil] at hread
      simp [Condition.ofExpression?, hspelling, hread, Condition.allOf_of_two_le two]

/-- A condition is sent as this expression with these maps: it was written with some
supply, and the maps are those of a later state of it. -/
def Condition.IsSentAs (condition : Condition) (expression : String) (names : NameMap)
    (values : ValueMap) : Prop :=
  ∃ supply later : Placeholders, (condition.render supply).2.Reaches later ∧
    expression = (condition.render supply).1 ∧ names = later.nameMap ∧ values = later.valueMap

/-- **A condition that was sent reads back** from the expression and the two maps of the call. -/
theorem Condition.ofExpression?_of_isSentAs {condition : Condition} (h : condition.Joined)
    {expression : String} {names : NameMap} {values : ValueMap}
    (hsent : condition.IsSentAs expression names values) :
    Condition.ofExpression? names values expression = some condition := by
  obtain ⟨supply, later, hlater, rfl, rfl, rfl⟩ := hsent
  exact Condition.ofExpression?_of_reaches h hlater

/-- Two conditions that are sent alike are the same. -/
theorem Condition.eq_of_isSentAs {condition other : Condition} (h : condition.Joined)
    (hother : other.Joined) {expression : String} {names : NameMap} {values : ValueMap}
    (hsent : condition.IsSentAs expression names values)
    (hothersent : other.IsSentAs expression names values) : condition = other := by
  have hcondition := Condition.ofExpression?_of_isSentAs h hsent
  rw [Condition.ofExpression?_of_isSentAs hother hothersent] at hcondition
  exact (Option.some.inj hcondition).symm

/-- A conjunction inside another is not the flat conjunction of all the parts. -/
theorem Condition.nested_ne_flat {front group back : List Condition}
    (h : (Condition.all group).Joined) :
    Condition.all (front ++ .all group :: back) ≠ .all (front ++ group ++ back) := by
  intro heq
  have hlength := congrArg List.length (Condition.all.inj heq)
  cases h with
  | all two each =>
      simp only [List.length_append, List.length_cons] at hlength
      omega

/-- **Conditions are recovered from their expressions.**  Whatever tokens are in use
already and whichever are taken afterwards, the expression stands for the condition
it was made of.  So no two conditions are sent alike, nested and flat conjunctions
are told apart, and a filter, an update or a projection that is written later gives
no earlier expression another meaning. -/
theorem Condition.ofExpression?_render :
    (∀ (condition : Condition) (supply later : Placeholders), condition.Joined →
      (condition.render supply).2.Reaches later →
      Condition.ofExpression? later.nameMap later.valueMap (condition.render supply).1 =
        some condition) ∧
    (∀ (condition other : Condition) (expression : String) (names : NameMap) (values : ValueMap),
      condition.Joined → other.Joined → condition.IsSentAs expression names values →
      other.IsSentAs expression names values → condition = other) ∧
    (∀ (front group back : List Condition) (expression : String) (names : NameMap)
      (values : ValueMap), (Condition.all (front ++ .all group :: back)).Joined →
      (Condition.all (front ++ group ++ back)).Joined →
      (Condition.all (front ++ .all group :: back)).IsSentAs expression names values →
      ¬ (Condition.all (front ++ group ++ back)).IsSentAs expression names values) ∧
    (∀ (condition : Condition) (supply : Placeholders) (filter : Option Condition)
      (changes : List Change) (selection : Selection), condition.Joined →
      let supply₁ := (condition.render supply).2
      let supply₂ := (Condition.render? filter supply₁).2
      let supply₃ := (Change.renderAll changes supply₂).2
      let later := (selection.render? supply₃).2
      Condition.ofExpression? later.nameMap later.valueMap (condition.render supply).1 =
        some condition) := by
  refine ⟨fun condition supply later hjoined hlater => ?_, ?_, ?_, ?_⟩
  · exact Condition.ofExpression?_of_reaches hjoined hlater
  · intro condition other expression names values hjoined hother hsent hothersent
    exact Condition.eq_of_isSentAs hjoined hother hsent hothersent
  · intro front group back expression names values hnested hflat hsent hflatsent
    cases hnested with
    | all two each =>
        have hgroup : (Condition.all group).Joined := each _ (by simp)
        exact Condition.nested_ne_flat hgroup
          (Condition.eq_of_isSentAs (.all two each) hflat hsent hflatsent)
  · intro condition supply filter changes selection hjoined supply₁ supply₂ supply₃ later
    have hfilter : supply₁.Reaches supply₂ := Condition.grows_render? filter supply₁
    have hchanges : supply₂.Reaches supply₃ := Change.grows_renderAll changes supply₂
    have hselection : supply₃.Reaches later := selection.grows_render? supply₃
    exact Condition.ofExpression?_of_reaches hjoined (hfilter.trans (hchanges.trans hselection))

/-- The second part of this condition is a conjunction of its own, the supply has tokens
for `x` and `a` already, and the projection takes one more. -/
theorem Condition.ofExpression?_nested :
    let range := Condition.test ⟨["a", "b"], by decide, by decide⟩
      (.between (.number "1") (.number "2"))
    let group := [Condition.test ⟨["b"], by decide, by decide⟩ .present,
      .test ⟨["x"], by decide, by decide⟩ (.among [.number "2", .text "c"])]
    let supply : Placeholders := { names := ["x", "a"] }
    let selection : Selection := ⟨[⟨["c"], by decide, by decide⟩]⟩
    let expression :=
      "#n1.#n2 BETWEEN :v0 AND :v1 AND (attribute_exists(#n2) AND #n0 IN (:v1, :v2))"
    let later := (selection.render ((Condition.all [range, .all group]).render supply).2).2
    ((Condition.all [range, .all group]).render supply).1 = expression ∧
      later.names = ["x", "a", "b", "c"] ∧
      Condition.ofExpression? later.nameMap later.valueMap expression =
        some (.all [range, .all group]) ∧
      ¬ (Condition.all (range :: group)).IsSentAs expression later.nameMap later.valueMap := by
  intro range group supply selection expression later
  have hgroup : (Condition.all group).Joined := .all (by decide) (by
    intro condition hmem
    rcases List.mem_pair.mp hmem with rfl | rfl <;> exact .test _ _)
  have hnested : (Condition.all [range, .all group]).Joined := .all (by decide) (by
    intro condition hmem
    rcases List.mem_pair.mp hmem with rfl | rfl
    · exact .test _ _
    · exact hgroup)
  have hflat : (Condition.all (range :: group)).Joined := .all (by decide) (by
    intro condition hmem
    rcases List.mem_cons.mp hmem with rfl | hmem
    · exact .test _ _
    · cases hgroup with
      | all two each => exact each condition hmem)
  have hlater : ((Condition.all [range, .all group]).render supply).2.Reaches later :=
    selection.grows_render _
  have htext : ((Condition.all [range, .all group]).render supply).1 = expression := by
    decide +kernel
  have hsent : (Condition.all [range, .all group]).IsSentAs expression later.nameMap
      later.valueMap := ⟨supply, later, hlater, htext.symm, rfl, rfl⟩
  refine ⟨htext, by decide +kernel, ?_, ?_⟩
  · exact htext ▸ Condition.ofExpression?_render.1 _ supply later hnested hlater
  · exact Condition.ofExpression?_render.2.2.1 [range] group [] _ _ _ hnested
      (by simpa using hflat) hsent
end KeywordTable
