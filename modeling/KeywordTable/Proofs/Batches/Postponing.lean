import KeywordTable.Proofs.Batches.Wording
import KeywordTable.Script

/-!
# Postponed work comes back as it was sent

What a service leaves over of a batch comes back in its own words: by table, beside parts
for other tables and empty ones, and among entries that hold neither a put nor a delete.  It
is looked up, taken for requests and put into words again before it is sent once more.

There is one wording for writes and one for keys.  They say what must be so without the
functions that do it: what is `listed` under a table's name, which entries hold anything,
which entry `Words` a write, and how keys are read.  The local fact is that the functions keep
to them (`Codec.Faithful.renders_writes`, `Codec.Faithful.renders_keys`): what is left over is
worded as it was before if it is a part of what was submitted (`WriteEntry.eq_map_of_sublist`).

The main result is `Codec.losesNothing`.  Of the codec it assumes that it is faithful, and of
the answers only what the words `Wording.Postpones` say; it covers answers that cannot be
understood and messages that cannot be delivered.
-/

namespace KeywordTable

variable {σ α β ρ τ : Type}

/-! ### Words -/

/-- What is listed under the name of a table: the first part that carries it. -/
def listed (table : String) : Fields α → Option α
  | [] => none
  | (name, part) :: rest => if name = table then some part else listed table rest

/-- What is listed under a name is what is looked up there. -/
theorem lookup_eq_listed (table : String) (tables : Fields α) :
    tables.lookup table = listed table tables := by
  induction tables with
  | nil => rfl
  | cons field rest ih =>
      obtain ⟨name, part⟩ := field
      by_cases hname : name = table
      · simp [listed, hname]
      · simp [listed, List.lookup_cons, hname, beq_false_of_ne (Ne.symm hname), ih]

/-- What an answer says about a table is what is listed under its name, if anything is. -/
theorem aboutTable_eq (answer : Option (Fields α)) (table : String) :
    aboutTable answer table = answer.bind (listed table) := by
  cases answer with
  | none => rfl
  | some tables => exact lookup_eq_listed table tables

/-- The entry that words a write: it is of the same kind and holds the same item or key, and
nothing else. -/
inductive Words : WriteRequest → WriteEntry → Prop
  | put (item : Item) : Words (.put item) { put := some item }
  | delete (key : Item) : Words (.delete key) { delete := some key }

/-- The words for writes to a table.  Entries that hold neither a put nor a delete are not
left over. -/
def Wording.writes (protocol : Protocol) (table : String) :
    Wording WriteEntry (Option (Fields (List WriteEntry))) where
  protocol
  request entries := .batchWrite [(table, entries)]
  answer entries delivery :=
    (protocol.answer (.batchWrite [(table, entries)]) delivery).mapError Trouble.fault
  left answer := ((answer.bind (listed table)).getD []).filter fun entry =>
    entry.put.isSome || entry.delete.isSome

/-- The words for keys of a table, which are read with these settings. -/
def Wording.keys (protocol : Protocol) (table : String) (consistent : Option Bool)
    (names : Option NameMap) (projection : Option String) : Wording Item BatchGetAnswer where
  protocol
  request keys := .batchGet [(table, { keys, consistent, names, projection })]
  answer keys delivery :=
    (protocol.answer (.batchGet [(table, { keys, consistent, names, projection })])
      delivery).mapError Trouble.fault
  left answer := ((answer.unprocessed.bind (listed table)).map KeysEntry.keys).getD []

/-- The words for a batch of keys: whatever is submitted of it, it is to be read with the
settings of the batch. -/
def Wording.ofBatchGet (protocol : Protocol) (batch : BatchGet) : Wording Item BatchGetAnswer :=
  .keys protocol batch.read.table batch.read.consistent batch.read.toCall.names
    batch.read.toCall.projection

/-- An entry that words a write is the one that is made for it. -/
theorem words_iff (request : WriteRequest) (entry : WriteEntry) :
    Words request entry ↔ request.toEntry = entry := by
  constructor
  · rintro (_ | _) <;> rfl
  · rintro rfl
    cases request with
    | put item => exact .put item
    | delete key => exact .delete key

/-- Lists are related one by one by a function if one is the other, mapped. -/
theorem forall₂_iff_map {R : α → β → Prop} {f : α → β} (hR : ∀ x y, R x y ↔ f x = y)
    (xs : List α) (ys : List β) : List.Forall₂ R xs ys ↔ xs.map f = ys := by
  constructor
  · intro h
    induction h with
    | nil => rfl
    | cons hfirst hrest ih => rw [List.map_cons, (hR _ _).mp hfirst, ih]
  · rintro rfl
    exact List.forall₂_map_right_iff.mpr (List.forall₂_same.mpr fun x _ => (hR _ _).mpr rfl)

/-- Entries that word writes are those that are made for them. -/
theorem forall₂_words_iff (requests : List WriteRequest) (entries : List WriteEntry) :
    List.Forall₂ Words requests entries ↔ requests.map WriteRequest.toEntry = entries :=
  forall₂_iff_map words_iff requests entries

/-- An entry holds something exactly if it stands for a write. -/
theorem WriteEntry.holds_eq (entry : WriteEntry) :
    (entry.put.isSome || entry.delete.isSome) = entry.toRequest?.isSome := by
  obtain ⟨put, delete⟩ := entry
  cases put <;> cases delete <;> rfl

/-- Words stand for the requests that they were made for. -/
theorem WriteEntry.filterMap_toEntry (requests : List WriteRequest) :
    (requests.map WriteRequest.toEntry).filterMap WriteEntry.toRequest? = requests := by
  rw [List.filterMap_map]
  simp [toRequest?_toEntry]

/-- The requests that entries stand for, in words: if the entries are a part of what was
sent, they are these entries. -/
theorem WriteEntry.eq_map_of_sublist {entries : List WriteEntry} {requests : List WriteRequest}
    (h : (entries.filter fun entry => entry.toRequest?.isSome).Sublist
      (requests.map WriteRequest.toEntry)) :
    (entries.filterMap WriteEntry.toRequest?).Sublist requests ∧
      (entries.filter fun entry => entry.toRequest?.isSome) =
        (entries.filterMap WriteEntry.toRequest?).map WriteRequest.toEntry := by
  obtain ⟨part, hpart, hentries⟩ := List.sublist_map_iff.mp h
  have hrequests : entries.filterMap WriteEntry.toRequest? = part := by
    have hkept : entries.filterMap WriteEntry.toRequest? =
        (entries.filter fun entry => entry.toRequest?.isSome).filterMap
          WriteEntry.toRequest? := by
      rw [List.filterMap_filter]
      refine List.filterMap_congr fun entry _ => ?_
      cases entry.toRequest? <;> rfl
    rw [hkept, hentries, filterMap_toEntry]
  rw [hrequests]
  exact ⟨hpart, hentries⟩

/-- What is left over of an answer, in words. -/
theorem Wording.left_writes (protocol : Protocol) (table : String)
    (answer : Option (Fields (List WriteEntry))) :
    (writes protocol table).left answer =
      ((aboutTable answer table).getD []).filter fun entry => entry.toRequest?.isSome := by
  rw [aboutTable_eq]
  exact List.filter_congr fun entry _ => entry.holds_eq

/-- The keys that are left over are those that are taken for requests again. -/
theorem Wording.left_keys (protocol : Protocol) (table : String) (consistent : Option Bool)
    (names : Option NameMap) (projection : Option String) (answer : BatchGetAnswer) :
    (Wording.keys protocol table consistent names projection).left answer =
      (answer.about table).unprocessed := by
  rw [BatchGetAnswer.about, aboutTable_eq answer.unprocessed]
  rfl

/-- Every item and every key of the writes is made of values of known kinds. -/
def KnownWrites (requests : List WriteRequest) : Prop :=
  ∀ item, .put item ∈ requests ∨ .delete item ∈ requests → item.isKnown = true

/-- Writes that can be encoded make a request that can. -/
theorem KnownWrites.isKnown {requests : List WriteRequest} (h : KnownWrites requests)
    (table : String) : (Call.batchWrite table requests).request.isKnown = true := by
  simp only [ServiceRequest.isKnown, ServiceRequest.items, Call.request, List.flatMap_singleton,
    List.all_eq_true, List.mem_flatMap, List.mem_map]
  rintro item ⟨_, ⟨request, hrequest, rfl⟩, hitem⟩
  cases request with
  | put content =>
      obtain rfl : item = content := by simpa [WriteRequest.toEntry] using hitem
      exact h _ (.inl hrequest)
  | delete key =>
      obtain rfl : item = key := by simpa [WriteRequest.toEntry] using hitem
      exact h _ (.inr hrequest)

section Batches

variable {codec : Codec} {protocol : Protocol}

/-- The functions that send writes keep to the words for writes. -/
theorem Codec.Faithful.renders_writes (hfaithful : codec.Faithful protocol)
    (transport : Transport σ) (table : String) :
    Renders (Wording.writes protocol table) WriteRequest.toEntry (leftOver · table) id codec
      transport KnownWrites (Round.ofWrites table) where
  posts hsendable hserves := hfaithful.serves_singleton (hsendable.isKnown table) hserves
  shrinks hpart hsendable item hitem :=
    hsendable item (hitem.imp (hpart.subset ·) (hpart.subset ·))
  left hpart := by
    rw [Wording.left_writes] at hpart ⊢
    exact WriteEntry.eq_map_of_sublist hpart

/-- The functions that ask for keys keep to the words for keys. -/
theorem Codec.Faithful.renders_keys (hfaithful : codec.Faithful protocol)
    (transport : Transport σ) (read : ItemReadCall) :
    Renders (Wording.keys protocol read.table read.consistent read.names read.projection) id
      (fun answer : BatchGetAnswer => answer.about read.table) BatchFound.unprocessed codec
      transport (fun keys => ∀ key ∈ keys, Item.isKnown key = true) (Round.ofKeys read) where
  posts {round state letters later} hsendable hserves := by
    have hknown : (Call.batchGet round.submitted read).request.isKnown = true := by
      simpa [ServiceRequest.isKnown, ServiceRequest.items, Call.request, ItemReadCall.entry]
        using hsendable
    obtain ⟨letter, hletters, hmakes, hanswer⟩ := hfaithful.serves_singleton hknown hserves
    rw [List.map_id]
    exact ⟨letter, hletters, hmakes, hanswer⟩
  shrinks hpart hsendable key hkey := hsendable key (hpart.subset hkey)
  left {answer submitted} hpart := by
    rw [List.map_id] at hpart ⊢
    rw [Wording.left_keys] at hpart ⊢
    exact ⟨hpart, rfl⟩

end Batches

/-- The items of a table that a round found. -/
def Round.itemsListed (table : String) (round : Round Item BatchGetAnswer) : List Item :=
  match round.answer with
  | .ok answer => (answer.found.bind (listed table)).getD []
  | .error _ => []

/-- The items that rounds find are those of the table. -/
theorem Rendered.flatMap_items {wording : Wording Item BatchGetAnswer} {table : String}
    {words : List (Round Item BatchGetAnswer)} {rounds : List (Round Item BatchFound)}
    (h : List.Forall₂ (Rendered wording id (fun answer : BatchGetAnswer => answer.about table)
      BatchFound.unprocessed) words rounds) :
    rounds.flatMap Round.items = words.flatMap (Round.itemsListed table) := by
  induction h with
  | nil => rfl
  | @cons other round words rounds hround hrest ih =>
      have hitems : round.items = other.itemsListed table := by
        rw [Round.items, Round.itemsListed, hround.answer]
        cases other.answer with
        | ok answer => exact congrArg (Option.getD · []) (aboutTable_eq answer.found table)
        | error fault => rfl
      rw [List.flatMap_cons, List.flatMap_cons, hitems, ih]

/-- A codec and a way to the service by which no postponed work is lost, with so many rounds
for a group. -/
structure Codec.LosesNothing (codec : Codec) (protocol : Protocol) (transport : Transport σ)
    (bound : Nat) : Prop where
  /-- Of a batch of writes, whatever the service leaves over of each letter is submitted next,
  and handed back is what remains. -/
  writes : ∀ (batch : BatchWrite) (groups : List (List WriteEntry)) (state later : σ)
    (letters : List Letter) (outcome : Except Fault (List WriteRequest)),
    KnownWrites batch.requests →
    List.Forall₂ (List.Forall₂ Words) (groupsOf (maxBatchWrite - 1) batch.requests) groups →
    (batch.send (codec.store transport.logging) bound).attempt (state, []) =
      (outcome, later, letters) →
    (∀ letter ∈ letters, (Wording.writes protocol batch.table).Postpones letter) →
    ∃ rounds remaining fault? handedBack,
      (Wording.writes protocol batch.table).Resubmits bound groups letters rounds remaining
        fault? ∧
      List.Forall₂ Words handedBack remaining.flatten ∧ outcome = orFault fault? handedBack
  /-- So it is with a batch of keys, which every letter asks to read in the same way; and the
  items that are handed back are those that were found in its table. -/
  keys : ∀ (batch : BatchGet) (state later : σ) (letters : List Letter)
    (outcome : Except Fault BatchFound),
    (∀ key ∈ batch.keys, Item.isKnown key = true) →
    (batch.send (codec.store transport.logging) bound).attempt (state, []) =
      (outcome, later, letters) →
    (∀ letter ∈ letters, (Wording.ofBatchGet protocol batch).Postpones letter) →
    ∃ rounds remaining fault?,
      (Wording.ofBatchGet protocol batch).Resubmits bound (groupsOf (maxBatchGet - 1) batch.keys)
        letters rounds remaining fault? ∧
      outcome = orFault fault?
        ⟨rounds.flatMap (Round.itemsListed batch.read.table), remaining.flatten⟩

/-- **Postponed work is not lost**: whatever the service leaves over of a letter is what the
next one submits, in the same order and the same words, until nothing is left over. -/
theorem Codec.losesNothing {codec : Codec} {protocol : Protocol}
    (hfaithful : codec.Faithful protocol) (transport : Transport σ) (bound : Nat) :
    codec.LosesNothing protocol transport bound where
  writes batch groups state later letters outcome hknown hgroups hrun hpostpones := by
    obtain ⟨rounds, remaining, fault?, after, hmakes, hsends, hdone⟩ :=
      makes_writeGroups (codec.store transport.logging) batch.table bound
        (groupsOf (maxBatchWrite - 1) batch.requests) (state, [])
    obtain ⟨rfl, rfl⟩ := Prod.mk.inj (hmakes.run.symm.trans hrun)
    have hrenders := hfaithful.renders_writes transport batch.table
    obtain ⟨words, hresubmits, -⟩ := hrenders.resubmits hsends hmakes.serves hdone
      (fun group hmem => ⟨hrenders.shrinks (sublist_of_mem_groupsOf hmem) hknown,
        ne_nil_of_mem_groupsOf hmem⟩) hpostpones
    obtain rfl := (forall₂_iff_map forall₂_words_iff _ _).mp hgroups
    exact ⟨words, _, fault?, remaining.flatten, hresubmits,
      (forall₂_words_iff _ _).mpr List.map_flatten, rfl⟩
  keys batch state later letters outcome hknown hrun hpostpones := by
    obtain ⟨rounds, remaining, fault?, after, hmakes, hsends, hdone⟩ :=
      makes_readGroups (codec.store transport.logging) batch.read.toCall bound
        (groupsOf (maxBatchGet - 1) batch.keys) (state, [])
    obtain ⟨rfl, rfl⟩ := Prod.mk.inj (hmakes.run.symm.trans hrun)
    have hrenders := hfaithful.renders_keys transport batch.read.toCall
    obtain ⟨words, hresubmits, hwords⟩ := hrenders.resubmits hsends hmakes.serves hdone
      (fun group hmem => ⟨hrenders.shrinks (sublist_of_mem_groupsOf hmem) hknown,
        ne_nil_of_mem_groupsOf hmem⟩) hpostpones
    simp only [List.map_id_fun, id_eq] at hresubmits
    refine ⟨words, _, fault?, hresubmits, ?_⟩
    rw [Rendered.flatMap_items hwords]
    rfl

/-! ### A service that postpones -/

/-- A call that a script answers in JSON. -/
theorem Codec.attempt_script (call : Call) (hknown : call.request.isKnown = true)
    {delivery : Delivery} {answer : call.request.Answer}
    (hdecode : call.request.decode delivery = .ok answer) (script : List Delivery)
    (letters : List Letter) :
    ((json.store scriptedTransport.logging).answer call).attempt (delivery :: script, letters) =
      (.ok (call.reply answer), script, letters ++ [⟨call.request.message, delivery⟩]) := by
  have hposted : scriptedTransport.post call.request.message (delivery :: script) =
      (delivery, script) := rfl
  have hanswer : json.decode call.request delivery = .ok answer := hdecode
  rw [json.attempt_posted scriptedTransport (encode_json hknown), hposted, hanswer]
  rfl

/-- A letter in JSON is known to postpone work by what it submits. -/
theorem Wording.postpones_json {wording : Wording α ρ} (hprotocol : wording.protocol = .json)
    {request : ServiceRequest} {sent : List α}
    (hsent : ∀ submitted, wording.request submitted = request → submitted = sent)
    {delivery : Delivery} {answer : ρ} (hanswer : wording.answer sent delivery = .ok answer)
    (hpart : (wording.left answer).Sublist sent) :
    wording.Postpones ⟨request.message, delivery⟩ := by
  intro submitted other hmakes hother
  rw [hprotocol] at hmakes
  obtain rfl := hsent submitted (ServiceRequest.message_inj hmakes.2)
  rw [hanswer] at hother
  cases hother
  exact hpart

/-- A letter of writes is known to postpone work by the answer that its text decodes to. -/
theorem Wording.postpones_writes {table : String} {sent : List WriteEntry} {delivery : Delivery}
    {answer : (ServiceRequest.batchWrite [(table, sent)]).Answer}
    (hdecode : (ServiceRequest.batchWrite [(table, sent)]).decode delivery = .ok answer)
    (hpart : ((writes .json table).left answer).Sublist sent) :
    (writes .json table).Postpones
      ⟨(ServiceRequest.batchWrite [(table, sent)]).message, delivery⟩ := by
  refine postpones_json rfl (fun submitted h => ?_)
    (congrArg (Except.mapError Trouble.fault) hdecode) hpart
  cases h
  rfl

/-- So is a letter of keys. -/
theorem Wording.postpones_keys {table : String} {consistent : Option Bool}
    {names : Option NameMap} {projection : Option String} {sent : List Item} {delivery : Delivery}
    {answer : BatchGetAnswer}
    (hdecode : (ServiceRequest.batchGet
      [(table, { keys := sent, consistent, names, projection })]).decode delivery = .ok answer)
    (hpart : ((keys .json table consistent names projection).left answer).Sublist sent) :
    (keys .json table consistent names projection).Postpones
      ⟨(ServiceRequest.batchGet [(table, { keys := sent, consistent, names, projection })]).message,
        delivery⟩ := by
  refine postpones_json rfl (fun submitted h => ?_)
    (congrArg (Except.mapError Trouble.fault) hdecode) hpart
  cases h
  rfl

/-- Two writes. -/
def putAndDelete : BatchWrite where
  table := "t"
  requests := [.put [("id", .text "a")], .delete [("id", .text "b")]]

/-- The delete is left over, beside an entry for another table and behind one that holds
nothing. -/
def deletePostponed : Delivery :=
  .replied 200 ("\x7b\"UnprocessedItems\":\x7b\"t\":[\x7b\x7d," ++
    "\x7b\"DeleteRequest\":\x7b\"Key\":\x7b\"id\":\x7b\"S\":\"b\"\x7d\x7d\x7d\x7d]," ++
    "\"u\":[\x7b\"DeleteRequest\":\x7b\"Key\":\x7b\"id\":\x7b\"S\":\"z\"\x7d\x7d\x7d\x7d]\x7d\x7d")

/-- The table is listed with nothing left over. -/
def nothingPostponed : Delivery := .replied 200 "\x7b\"UnprocessedItems\":\x7b\"t\":[]\x7d\x7d"

/-- The writes as they are submitted at first. -/
def bothEntries : List WriteEntry :=
  [{ put := some [("id", .text "a")] }, { delete := some [("id", .text "b")] }]

/-- The write that is left over. -/
def deleteEntries : List WriteEntry := [{ delete := some [("id", .text "b")] }]

/-- The text holds three entries, of which one is a delete from the table. -/
theorem decode_deletePostponed :
    ServiceRequest.decode (.batchWrite [("t", bothEntries)]) deletePostponed =
      .ok (some [("t", {} :: deleteEntries), ("u", [{ delete := some [("id", .text "z")] }])]) := by
  decide +kernel

/-- The text lists the table with no entries. -/
theorem decode_nothingPostponed :
    ServiceRequest.decode (.batchWrite [("t", deleteEntries)]) nothingPostponed =
      .ok (some [("t", [])]) := by
  decide +kernel

/-- The two writes take two letters. -/
def writeLetters : List Letter :=
  [⟨(ServiceRequest.batchWrite [("t", bothEntries)]).message, deletePostponed⟩,
    ⟨(ServiceRequest.batchWrite [("t", deleteEntries)]).message, nothingPostponed⟩]

/-- What each of them leaves over is a part of what it submitted. -/
theorem postpones_writeLetters :
    ∀ letter ∈ writeLetters, (Wording.writes .json "t").Postpones letter := by
  unfold writeLetters
  intro letter hmem
  rcases List.mem_pair.mp hmem with rfl | rfl
  · exact Wording.postpones_writes decode_deletePostponed (.cons _ (.cons_cons _ .slnil))
  · exact Wording.postpones_writes decode_nothingPostponed (List.nil_sublist _)

/-- They fit into one group. -/
theorem groups_putAndDelete :
    groupsOf (maxBatchWrite - 1) putAndDelete.requests = [putAndDelete.requests] := by
  simp only [putAndDelete, groupsOf, maxBatchWrite, List.drop_succ_cons, List.drop_nil]
  rfl

/-- Both writes can be encoded. -/
theorem known_putAndDelete : KnownWrites putAndDelete.requests := by
  rintro item (hmem | hmem) <;> rcases List.mem_pair.mp hmem with h | h <;> cases h <;> rfl

/-- Both writes are done after two letters. -/
theorem attempt_putAndDelete :
    (putAndDelete.send (Codec.json.store scriptedTransport.logging) 2).attempt
        ([deletePostponed, nothingPostponed], []) = (.ok [], [], writeLetters) := by
  have hfirst := Codec.attempt_script (.batchWrite "t" putAndDelete.requests)
    (by decide) decode_deletePostponed [nothingPostponed] []
  have hsecond := Codec.attempt_script (.batchWrite "t" [.delete [("id", .text "b")]])
    (by decide) decode_nothingPostponed []
  have hgroup : (writeGroup (Codec.json.store scriptedTransport.logging) putAndDelete.table 2
      putAndDelete.requests).attempt ([deletePostponed, nothingPostponed], []) =
        (.ok [], [], writeLetters) := by
    show (writeGroup _ "t" 2 _).attempt _ = _
    rw [writeGroup_succ _ "t" 1 (by decide), Run.attempt_bind, hfirst]
    show (writeGroup _ "t" 1 [.delete [("id", .text "b")]]).attempt ([nothingPostponed], _) = _
    rw [writeGroup_succ _ "t" 0 (List.cons_ne_nil _ _), Run.attempt_bind, hsecond]
    rfl
  rw [BatchWrite.send, groups_putAndDelete, writeGroups_cons, Run.attempt_bind, hgroup]
  rfl

/-- Two keys, of whose items one attribute is wanted, as it was written last. -/
def twoKeys : BatchGet where
  keys := [[("id", .text "a")], [("id", .text "b")]]
  read :=
    { table := "t"
      consistent := some true
      selection := { paths := [⟨["id"], by decide, by decide +kernel⟩] } }

/-- One item is found and the other key is left over, beside items and keys of another
table. -/
def keyPostponed : Delivery :=
  .replied 200 ("\x7b\"Responses\":\x7b\"u\":[\x7b\"id\":\x7b\"S\":\"z\"\x7d\x7d]," ++
    "\"t\":[\x7b\"id\":\x7b\"S\":\"a\"\x7d\x7d]\x7d," ++
    "\"UnprocessedKeys\":\x7b\"t\":\x7b\"Keys\":[\x7b\"id\":\x7b\"S\":\"b\"\x7d\x7d]\x7d," ++
    "\"u\":\x7b\"Keys\":[\x7b\"id\":\x7b\"S\":\"z\"\x7d\x7d]\x7d\x7d\x7d")

/-- The other item is found. -/
def keyFound : Delivery :=
  .replied 200 "\x7b\"Responses\":\x7b\"t\":[\x7b\"id\":\x7b\"S\":\"b\"\x7d\x7d]\x7d\x7d"

/-- How the items are read. -/
def keySettings : ItemReadCall :=
  { table := "t", consistent := some true, names := some [("#n0", "id")], projection := some "#n0" }

/-- The settings are compiled with one name. -/
theorem toCall_twoKeys : twoKeys.read.toCall = keySettings := by decide +kernel

/-- The request for some of the keys. -/
abbrev askFor (keys : List Item) : ServiceRequest :=
  .batchGet [("t", { keys, consistent := some true, names := some [("#n0", "id")],
                     projection := some "#n0" })]

/-- The text holds one item and one key of the table, each beside one of another table. -/
theorem decode_keyPostponed : (askFor twoKeys.keys).decode keyPostponed =
    .ok { found := some [("t", [[("id", .text "a")]]), ("u", [[("id", .text "z")]])]
          unprocessed := some [("t", { keys := [[("id", .text "b")]] }),
            ("u", { keys := [[("id", .text "z")]] })] } := by
  decide +kernel

/-- The text holds the item of the other key. -/
theorem decode_keyFound : (askFor [[("id", .text "b")]]).decode keyFound =
    .ok { found := some [("t", [[("id", .text "b")]])] } := by
  decide +kernel

/-- The two keys take two letters. -/
def keyLetters : List Letter :=
  [⟨(askFor twoKeys.keys).message, keyPostponed⟩,
    ⟨(askFor [[("id", .text "b")]]).message, keyFound⟩]

/-- What each of them leaves over is a part of what it submitted. -/
theorem postpones_keyLetters :
    ∀ letter ∈ keyLetters, (Wording.ofBatchGet .json twoKeys).Postpones letter := by
  have hwording : Wording.ofBatchGet .json twoKeys =
      .keys .json "t" (some true) (some [("#n0", "id")]) (some "#n0") := by
    rw [Wording.ofBatchGet, toCall_twoKeys]
    rfl
  rw [hwording]
  unfold keyLetters
  intro letter hmem
  rcases List.mem_pair.mp hmem with rfl | rfl
  · exact Wording.postpones_keys decode_keyPostponed (.cons _ (.cons_cons _ .slnil))
  · exact Wording.postpones_keys decode_keyFound (List.nil_sublist _)

/-- They fit into one group. -/
theorem groups_twoKeys : groupsOf (maxBatchGet - 1) twoKeys.keys = [twoKeys.keys] := by
  simp [twoKeys, groupsOf, maxBatchGet]

/-- Both items are found after two letters. -/
theorem attempt_twoKeys :
    (twoKeys.send (Codec.json.store scriptedTransport.logging) 2).attempt
        ([keyPostponed, keyFound], []) = (.ok ⟨twoKeys.keys, []⟩, [], keyLetters) := by
  have hfirst := Codec.attempt_script (.batchGet twoKeys.keys keySettings)
    (by decide) decode_keyPostponed [keyFound] []
  have hsecond := Codec.attempt_script (.batchGet [[("id", .text "b")]] keySettings)
    (by decide) decode_keyFound []
  have hgroup : (readGroup (Codec.json.store scriptedTransport.logging) keySettings 2
      twoKeys.keys).attempt ([keyPostponed, keyFound], []) =
        (.ok ⟨twoKeys.keys, []⟩, [], keyLetters) := by
    have hne : twoKeys.keys ≠ [] := List.cons_ne_nil _ _
    rw [readGroup_succ _ keySettings 1 hne, Run.attempt_bind, hfirst]
    show (readGroup _ keySettings 1 [[("id", .text "b")]] >>= _ : Run _ _).attempt
      ([keyFound], _) = _
    rw [readGroup_succ _ keySettings 0 (List.cons_ne_nil _ _), Run.attempt_bind, Run.attempt_bind,
      hsecond]
    rfl
  rw [BatchGet.send, toCall_twoKeys, groups_twoKeys, readGroups_cons, Run.attempt_bind, hgroup]
  rfl

/-- What is left over of the two writes is the delete, and it is sent once more alone; what is
left over of the two keys is the second, and it is asked for once more with all three
settings. -/
theorem Codec.losesNothing_json :
    ((putAndDelete.send (Codec.json.store scriptedTransport.logging) 2).attempt
        ([deletePostponed, nothingPostponed], []) = (.ok [], [], writeLetters) ∧
      ∃ rounds remaining fault? handedBack,
        (Wording.writes .json "t").Resubmits 2 [bothEntries] writeLetters rounds remaining
          fault? ∧
        List.Forall₂ Words handedBack remaining.flatten ∧ .ok [] = orFault fault? handedBack) ∧
    ((twoKeys.send (Codec.json.store scriptedTransport.logging) 2).attempt
        ([keyPostponed, keyFound], []) = (.ok ⟨twoKeys.keys, []⟩, [], keyLetters) ∧
      ∃ rounds remaining fault?,
        (Wording.ofBatchGet .json twoKeys).Resubmits 2 [twoKeys.keys] keyLetters rounds remaining
          fault? ∧
        .ok (BatchFound.mk twoKeys.keys []) =
          orFault fault? ⟨rounds.flatMap (Round.itemsListed "t"), remaining.flatten⟩) := by
  have hgroups : List.Forall₂ (List.Forall₂ Words)
      (groupsOf (maxBatchWrite - 1) putAndDelete.requests) [bothEntries] := by
    rw [groups_putAndDelete]
    exact .cons (.cons (.put _) (.cons (.delete _) .nil)) .nil
  have hloses := Codec.losesNothing Codec.faithful_json scriptedTransport 2
  have hkept := hloses.keys twoKeys _ _ _ _ (by decide) attempt_twoKeys postpones_keyLetters
  rw [groups_twoKeys] at hkept
  exact ⟨⟨attempt_putAndDelete, hloses.writes putAndDelete [bothEntries] _ _ _ _
    known_putAndDelete hgroups attempt_putAndDelete postpones_writeLetters⟩, attempt_twoKeys, hkept⟩

end KeywordTable
