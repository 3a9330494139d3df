import KeywordTable.Proofs.Accounting
import KeywordTable.Proofs.Sending

/-!
# Calls explain what they mention

A call is **closed** if its name map has exactly the name tokens that its
expressions mention, its value map exactly the value tokens, and a map is left out
if there is nothing to explain.  A call that is not closed would be refused by a
store.

That requests become closed calls is the law of accounting, applied to the
expressions of the call one after the other and started from an empty supply.
-/

namespace KeywordTable

open Placeholders

namespace Call

/-- All expressions of a call. -/
def expressions : Call → List String
  | .getItem _ read | .batchGet _ read => read.projection.toList
  | .putItem _ write | .deleteItem _ write => write.condition.toList
  | .updateItem _ update write => update :: write.condition.toList
  | .query keyCondition _ read => keyCondition :: (read.filter.toList ++ read.projection.toList)
  | .scan read => read.filter.toList ++ read.projection.toList
  | .batchWrite _ _ => []

/-- What the call says about name tokens. -/
def nameMap? : Call → Option NameMap
  | .getItem _ read | .batchGet _ read => read.names
  | .putItem _ write | .deleteItem _ write | .updateItem _ _ write => write.names
  | .query _ _ read | .scan read => read.names
  | .batchWrite _ _ => none

/-- What the call says about value tokens. -/
def valueMap? : Call → Option ValueMap
  | .getItem _ _ | .batchGet _ _ => none
  | .putItem _ write | .deleteItem _ write | .updateItem _ _ write => write.values
  | .query _ _ read | .scan read => read.values
  | .batchWrite _ _ => none

/-- The tokens with this sign that the expressions of the call mention. -/
def mentions (call : Call) (sign : Char) : List String :=
  (call.expressions.flatMap lexemes).filter fun word => word.toList.head? = some sign

end Call

/-- The map explains exactly the tokens, and is left out if there are none. -/
structure Explains {α : Type} (map? : Option (Fields α)) (tokens : List String) : Prop where
  explained : ∀ word, word ∈ tokens ↔ ∃ map, map? = some map ∧ word ∈ Fields.names map
  left_out : map? = none ↔ tokens = []

/-- The maps of the call explain exactly the tokens in its expressions. -/
structure Call.IsClosed (call : Call) : Prop where
  names : Explains call.nameMap? (call.mentions '#')
  values : Explains call.valueMap? (call.mentions ':')

/-! ### From the supply to the call -/

/-- A map that is left out when it is empty explains the tokens that are in it. -/
theorem explains_of_mem_iff {α : Type} {map : Fields α} {map? : Option (Fields α)}
    {tokens : List String} (hmap : map? = if map.isEmpty then none else some map)
    (htokens : ∀ word, word ∈ tokens ↔ word ∈ Fields.names map) : Explains map? tokens := by
  subst hmap
  cases map with
  | nil =>
      have hnil : tokens = [] := List.eq_nil_iff_forall_not_mem.mpr fun word hword =>
        absurd ((htokens word).mp hword) List.not_mem_nil
      exact ⟨by simp [hnil], by simp [hnil]⟩
  | cons field fields =>
      have hsome : tokens ≠ [] := List.ne_nil_of_mem ((htokens field.1).mpr List.mem_cons_self)
      exact ⟨by simpa using htokens, by simp [hsome]⟩

/-- The name map is left out just when it is empty. -/
theorem nameMap?_eq (supply : Placeholders) :
    supply.nameMap? = if supply.nameMap.isEmpty then none else some supply.nameMap := by
  simp [nameMap?, nameMap, List.isEmpty_iff]

theorem valueMap?_eq (supply : Placeholders) :
    supply.valueMap? = if supply.valueMap.isEmpty then none else some supply.valueMap := by
  simp [valueMap?, valueMap, List.isEmpty_iff]

/-- Name tokens begin with their sign. -/
theorem mem_tokens_name_iff (supply : Placeholders) (word : String) :
    word ∈ supply.tokens ∧ word.toList.head? = some '#' ↔
      word ∈ Fields.names supply.nameMap := by
  rw [Placeholders.tokens, List.mem_append, mem_names_nameMap, mem_names_valueMap]
  constructor
  · rintro ⟨hname | ⟨place, _, rfl⟩, hsign⟩
    · exact hname
    · simp [valueToken] at hsign
  · rintro ⟨place, hplace, rfl⟩
    exact ⟨Or.inl ⟨place, hplace, rfl⟩, by simp [nameToken]⟩

/-- Value tokens begin with theirs. -/
theorem mem_tokens_value_iff (supply : Placeholders) (word : String) :
    word ∈ supply.tokens ∧ word.toList.head? = some ':' ↔
      word ∈ Fields.names supply.valueMap := by
  rw [Placeholders.tokens, List.mem_append, mem_names_nameMap, mem_names_valueMap]
  constructor
  · rintro ⟨⟨place, _, rfl⟩ | hvalue, hsign⟩
    · simp [nameToken] at hsign
    · exact hvalue
  · rintro ⟨place, hplace, rfl⟩
    exact ⟨Or.inr ⟨place, hplace, rfl⟩, by simp [valueToken]⟩

/-- No word of the language begins like a token. -/
theorem not_mem_updateVocabulary {word : String}
    (h : word.toList.head? = some '#' ∨ word.toList.head? = some ':') :
    word ∉ updateVocabulary := by
  have hwords : ∀ word ∈ updateVocabulary,
      word.toList.head? ≠ some '#' ∧ word.toList.head? ≠ some ':' := by decide
  intro hmem
  rcases h with h | h
  · exact (hwords word hmem).1 h
  · exact (hwords word hmem).2 h

/-- **A call is closed** if it carries the maps of a supply whose tokens are those that the
expressions mention.  The sign of a token keeps it apart from the words of the language. -/
theorem Call.isClosed_of_accounts {call : Call} (supply : Placeholders)
    (hnames : call.nameMap? = supply.nameMap?) (hvalues : call.valueMap? = supply.valueMap?)
    (haccounts : ∀ word, word ∉ updateVocabulary →
      (word ∈ supply.tokens ↔ ∃ text ∈ call.expressions, word ∈ lexemes text)) :
    call.IsClosed := by
  have hmentions : ∀ sign, (sign = '#' ∨ sign = ':') → ∀ word, word ∈ call.mentions sign ↔
      word ∈ supply.tokens ∧ word.toList.head? = some sign := by
    intro sign hsign word
    rw [Call.mentions, List.mem_filter, List.mem_flatMap, decide_eq_true_iff]
    refine and_congr_left fun hhead => (haccounts word (not_mem_updateVocabulary ?_)).symm
    rcases hsign with rfl | rfl
    · exact Or.inl hhead
    · exact Or.inr hhead
  constructor
  · refine explains_of_mem_iff (hnames.trans (nameMap?_eq supply)) fun word => ?_
    rw [hmentions '#' (Or.inl rfl), mem_tokens_name_iff]
  · refine explains_of_mem_iff (hvalues.trans (valueMap?_eq supply)) fun word => ?_
    rw [hmentions ':' (Or.inr rfl), mem_tokens_value_iff]

/-! ### Parts that may be left out -/

/-- A condition that is left out mentions nothing. -/
theorem Condition.accounts_render? (condition : Option Condition) :
    AccountsFor vocabulary Option.toList (Condition.render? condition) := by
  cases condition with
  | none => exact accountsFor_pure vocabulary rfl
  | some condition =>
      intro supply word hword
      have hlaw := accounts_iff.mp condition.accounts_render supply word hword
      show word ∈ (condition.render supply).2.tokens ↔
        word ∈ supply.tokens ∨ ∃ text ∈ [(condition.render supply).1], word ∈ lexemes text
      simpa using hlaw

theorem Selection.accounts_render? (selection : Selection) :
    AccountsFor vocabulary Option.toList selection.render? := by
  unfold Selection.render?
  split
  · exact accountsFor_pure vocabulary rfl
  · intro supply word hword
    have hlaw := accounts_iff.mp selection.accounts_render supply word hword
    show word ∈ (selection.render supply).2.tokens ↔
      word ∈ supply.tokens ∨ ∃ text ∈ [(selection.render supply).1], word ∈ lexemes text
    simpa using hlaw

/-- A selection takes no values. -/
theorem Selection.values_render? (selection : Selection) (supply : Placeholders) :
    (selection.render? supply).2.values = supply.values := by
  have hnames : ∀ (names : List String) (supply : Placeholders),
      (names.mapM internName supply).2.values = supply.values := by
    intro names
    induction names with
    | nil => exact fun _ => rfl
    | cons name names ih =>
        intro supply
        rw [List.mapM_cons]
        exact (ih _).trans (values_internName name supply)
  have hpaths : ∀ (paths : List AttributePath) (supply : Placeholders),
      (paths.mapM internPath supply).2.values = supply.values := by
    intro paths
    induction paths with
    | nil => exact fun _ => rfl
    | cons path paths ih =>
        intro supply
        rw [List.mapM_cons]
        exact (ih _).trans (hnames path.names supply)
  unfold Selection.render?
  split
  · rfl
  · exact hpaths selection.paths supply

/-- A fresh supply has no tokens in use. -/
theorem not_mem_tokens_empty (word : String) : word ∉ ({} : Placeholders).tokens :=
  List.not_mem_nil

/-! ### Requests become closed calls -/

/-- A call that sends a selection and nothing else is closed. -/
theorem isClosed_read (read : ItemRead) (call : Call)
    (hexpressions : call.expressions = (read.selection.render? {}).1.toList)
    (hnames : call.nameMap? = (read.selection.render? {}).2.nameMap?)
    (hvalues : call.valueMap? = none) : call.IsClosed := by
  have hnovalues : (read.selection.render? {}).2.valueMap? = none := by
    simp [Placeholders.valueMap?, read.selection.values_render?]
  refine Call.isClosed_of_accounts (read.selection.render? {}).2 hnames
    (hvalues.trans hnovalues.symm) fun word hword => ?_
  have hselection := read.selection.accounts_render? {} word
    fun hmem => hword (List.mem_append_left _ hmem)
  rw [hselection, hexpressions]
  simp [not_mem_tokens_empty]

/-- A read of one item is closed. -/
theorem GetItem.isClosed_toCall (request : GetItem) : request.toCall.IsClosed :=
  isClosed_read request.read _ rfl rfl rfl

/-- Each call of a batch of keys is closed. -/
theorem BatchGet.isClosed_call (batch : BatchGet) (keys : List Item) :
    (Call.batchGet keys batch.read.toCall).IsClosed :=
  isClosed_read batch.read _ rfl rfl rfl

/-- A write behind an expression `front`, if anything was written before. -/
theorem isClosed_write (write : Write) (front : List String) (supply : Placeholders) (call : Call)
    (hfront : ∀ word, word ∉ updateVocabulary →
      (word ∈ supply.tokens ↔ ∃ text ∈ front, word ∈ lexemes text))
    (hexpressions : call.expressions =
      front ++ (Condition.render? write.condition supply).1.toList)
    (hnames : call.nameMap? = (Condition.render? write.condition supply).2.nameMap?)
    (hvalues : call.valueMap? = (Condition.render? write.condition supply).2.valueMap?) :
    call.IsClosed := by
  refine Call.isClosed_of_accounts _ hnames hvalues fun word hword => ?_
  have hcondition := Condition.accounts_render? write.condition supply word
    fun hmem => hword (List.mem_append_left _ hmem)
  rw [hcondition, hfront word hword, hexpressions]
  simp only [List.mem_append, or_and_right, exists_or]

theorem PutItem.isClosed_toCall (request : PutItem) : request.toCall.IsClosed :=
  isClosed_write request.write [] {} _ (fun word _ => by simp [not_mem_tokens_empty]) rfl rfl rfl

theorem DeleteItem.isClosed_toCall (request : DeleteItem) : request.toCall.IsClosed :=
  isClosed_write request.write [] {} _ (fun word _ => by simp [not_mem_tokens_empty]) rfl rfl rfl

/-- An update is closed, since its precondition takes its tokens from the same supply. -/
theorem UpdateItem.isClosed_toCall (request : UpdateItem) : request.toCall.IsClosed := by
  refine isClosed_write request.write [(Change.renderAll request.changes {}).1]
    (Change.renderAll request.changes {}).2 _ (fun word hword => ?_) rfl rfl rfl
  rw [Change.accounts_renderAll request.changes {} hword]
  simp [not_mem_tokens_empty]

/-- A page behind an expression `front`, if anything was written before. -/
theorem isClosed_page (read : PageRead) (front : List String) (supply : Placeholders) (call : Call)
    (hfront : ∀ word, word ∉ updateVocabulary →
      (word ∈ supply.tokens ↔ ∃ text ∈ front, word ∈ lexemes text))
    (hexpressions : call.expressions =
      front ++ ((read.toCall supply).filter.toList ++ (read.toCall supply).projection.toList))
    (hnames : call.nameMap? = (read.toCall supply).names)
    (hvalues : call.valueMap? = (read.toCall supply).values) : call.IsClosed := by
  refine Call.isClosed_of_accounts
    (read.selection.render? (Condition.render? read.condition supply).2).2 hnames hvalues
    fun word hword => ?_
  have hvocabulary : word ∉ vocabulary := fun hmem => hword (List.mem_append_left _ hmem)
  have hfilter := Condition.accounts_render? read.condition supply word hvocabulary
  have hselection := read.selection.accounts_render? (Condition.render? read.condition supply).2
    word hvocabulary
  have hsent : (read.toCall supply).filter = (Condition.render? read.condition supply).1 ∧
      (read.toCall supply).projection =
        (read.selection.render? (Condition.render? read.condition supply).2).1 := ⟨rfl, rfl⟩
  rw [hselection, hfilter, hfront word hword, hexpressions, hsent.1, hsent.2]
  simp only [List.mem_append, or_and_right, exists_or, or_assoc]

/-- A page is asked for by a closed call. -/
theorem PageRequest.isClosed_toCall (request : PageRequest) : request.toCall.IsClosed := by
  obtain ⟨access, read⟩ := request
  cases access with
  | query keyCondition forward =>
      refine isClosed_page read [(keyCondition.render {}).1] (keyCondition.render {}).2 _
        (fun word hword => ?_) rfl rfl rfl
      have hvocabulary : word ∉ vocabulary := fun hmem => hword (List.mem_append_left _ hmem)
      rw [accounts_iff.mp keyCondition.accounts_render {} word hvocabulary]
      simp [not_mem_tokens_empty]
  | scan =>
      exact isClosed_page read [] {} _ (fun word _ => by simp [not_mem_tokens_empty]) rfl rfl rfl

/-- **Every call explains exactly what it mentions.**  The first part is about the
calls that requests become, a page request of a reader that counts among them; the
second about everything that is sent, whatever the store answers. -/
theorem Call.isClosed_of_request :
    ((∀ request : GetItem, request.toCall.IsClosed) ∧
      (∀ (batch : BatchGet) (keys : List Item),
        (Call.batchGet keys batch.read.toCall).IsClosed) ∧
      (∀ request : PutItem, request.toCall.IsClosed) ∧
      (∀ request : UpdateItem, request.toCall.IsClosed) ∧
      (∀ request : DeleteItem, request.toCall.IsClosed) ∧
      (∀ request : PageRequest, request.toCall.IsClosed) ∧
      (∀ reader : Reader, reader.counting.pageRequest.toCall.IsClosed)) ∧
    ∀ {σ : Type} (store : Store σ),
      (∀ request : GetItem, SendsOnly IsClosed (request.send store.recording).attempt) ∧
      (∀ (batch : BatchGet) (rounds : Nat),
        SendsOnly IsClosed (batch.send store.recording rounds).attempt) ∧
      (∀ request : PutItem, SendsOnly IsClosed (request.send store.recording).attempt) ∧
      (∀ request : UpdateItem, SendsOnly IsClosed (request.send store.recording).attempt) ∧
      (∀ request : DeleteItem, SendsOnly IsClosed (request.send store.recording).attempt) ∧
      (∀ request : PageRequest, SendsOnly IsClosed (request.send store.recording).attempt) ∧
      (∀ (reader : Reader) (moves : Nat), SendsOnly IsClosed (reader.next store.recording moves)) ∧
      (∀ (reader : Reader) (pages : Nat),
        SendsOnly IsClosed (reader.count store.recording pages).attempt) := by
  have hpage : ∀ reader : Reader, reader.pageRequest.toCall.IsClosed :=
    fun reader => reader.pageRequest.isClosed_toCall
  refine ⟨⟨GetItem.isClosed_toCall, BatchGet.isClosed_call, PutItem.isClosed_toCall,
    UpdateItem.isClosed_toCall, DeleteItem.isClosed_toCall, PageRequest.isClosed_toCall,
    fun reader => hpage reader.counting⟩, fun store => ?_⟩
  refine ⟨?_, ?_, ?_, ?_, ?_, ?_, ?_, ?_⟩
  · exact fun request => request.sendsOnly store request.isClosed_toCall
  · exact fun batch rounds => batch.sendsOnly store rounds batch.isClosed_call
  · exact fun request => request.sendsOnly store request.isClosed_toCall
  · exact fun request => request.sendsOnly store request.isClosed_toCall
  · exact fun request => request.sendsOnly store request.isClosed_toCall
  · exact fun request => request.sendsOnly store request.isClosed_toCall
  · exact fun reader moves => Reader.sendsOnly_next store hpage moves reader
  · exact fun reader pages => Reader.sendsOnly_count store hpage pages reader

end KeywordTable
