import KeywordTable.Service.Answer
import Mathlib

/-!
# What a codec is trusted with

A codec is **faithful** to a protocol if a request can be encoded whenever its values are of
known kinds, if the message that it is encoded as makes this request and no other, and if
what is decoded is what the service said.  Nothing else about a codec is ever assumed, and
in particular not how its messages look.

The codec that speaks JSON is faithful, `Codec.faithful_json`.  A message of its tells which
request it was made for (`ServiceRequest.message_inj`).  The reason is the same at every
depth: two values with the same body are the same value, because the member that names the
kind tells them apart, and texts, digits and bytes stand in it as they are or in a form that
reads back; and what is said under the name of a member tells what the member was made from
(`Json.given_congr`), whether it was left out or not.
-/

namespace KeywordTable

/-- What the service means by words: the requests that a message makes, and what is said to
a request by what becomes of its message. -/
structure Protocol where
  Makes : Message → ServiceRequest → Prop
  answer : (request : ServiceRequest) → Delivery → Except Trouble request.Answer

/-- The codec encodes requests and decodes answers as the protocol means them. -/
structure Codec.Faithful (codec : Codec) (protocol : Protocol) : Prop where
  /-- A request whose values are all of known kinds can be encoded. -/
  encodes : ∀ request : ServiceRequest, request.isKnown = true →
    ∃ message, codec.encode request = .ok message
  /-- The message that a request is encoded as makes this request and no other. -/
  makes : ∀ request message, codec.encode request = .ok message →
    ∀ other, protocol.Makes message other ↔ other = request
  /-- What is decoded is what was said. -/
  decodes : ∀ request delivery, codec.decode request delivery = protocol.answer request delivery

/-! ### Values and items -/

namespace Value

/-- Bytes are told by their body. -/
theorem bytesBody_inj {a b : Bytes} : bytesBody a = bytesBody b ↔ a = b := by
  refine ⟨fun h => ?_, congrArg bytesBody⟩
  have hread := congrArg Bytes.ofBase64? (Json.text.inj h)
  rw [Bytes.ofBase64?_toBase64, Bytes.ofBase64?_toBase64] at hread
  exact Option.some.inj hread

mutual

/-- The body of a value tells which value it is. -/
theorem body_inj : ∀ a b : Value, a.body = b.body ↔ a = b
  | .text _, b | .number _, b | .bool _, b | .null _, b | .unknown, b => by
    cases b <;> simp [body]
  | .bytes _, b => by cases b <;> simp [body, bytesBody_inj]
  | .textSet _, b | .numberSet _, b => by cases b <;> simp [body, List.map_inj_right]
  | .bytesSet _, b => by cases b <;> simp [body, List.map_inj_right, bytesBody_inj]
  | .list xs, b => by cases b <;> simp [body, elementBodies_inj xs]
  | .map xs, b => by cases b <;> simp [body, fieldBodies_inj xs]

/-- The bodies of the elements of a list tell which list it is. -/
theorem elementBodies_inj : ∀ a b : List Value, elementBodies a = elementBodies b ↔ a = b
  | [], b => by cases b <;> simp [elementBodies]
  | x :: xs, b => by cases b <;> simp [elementBodies, body_inj x, elementBodies_inj xs]

/-- The bodies of named values tell which values they are. -/
theorem fieldBodies_inj : ∀ a b : List (String × Value), fieldBodies a = fieldBodies b ↔ a = b
  | [], b => by cases b <;> simp [fieldBodies]
  | (_, x) :: xs, b => by
    cases b with
    | nil => simp [fieldBodies]
    | cons y ys => cases y; simp [fieldBodies, body_inj x, fieldBodies_inj xs, and_assoc]

end

end Value

/-- An item is told by its body. -/
theorem Item.body_injective : Function.Injective Item.body := by
  intro a b h
  rwa [Item.body, Item.body, Json.object.injEq, Value.fieldBodies_inj] at h

/-- The names that tokens stand for are told by their body. -/
theorem NameMap.body_injective : Function.Injective NameMap.body := by
  intro a b h
  have hfield : Function.Injective fun field : String × String => (field.1, Json.text field.2) := by
    rintro ⟨name, content⟩ ⟨other, content'⟩ hsame
    simpa using hsame
  exact hfield.list_map (Json.object.inj h)

/-! ### Members -/

namespace Json

/-- What is said under a name by the members that are not left out. -/
def given (members : List (Option (String × Json))) (name : String) : Option Json :=
  (members.filterMap id).lookup name

/-- Objects that look the same say the same under every name. -/
theorem given_congr {xs ys : List (Option (String × Json))} (h : ofMembers xs = ofMembers ys)
    (name : String) : given xs name = given ys name :=
  congrArg (List.lookup name) (Json.object.inj h)

variable (rest : List (Option (String × Json)))

@[simp]
theorem given_nil (name : String) : given [] name = none := rfl

/-- A member that is always there says so under its name. -/
@[simp]
theorem given_always (name other : String) (value : Json) :
    given (always name value :: rest) other =
      if other = name then some value else given rest other := by
  by_cases h : other = name
  · simp [given, always, h]
  · simp [given, always, List.lookup_cons, beq_false_of_ne h, h]

/-- A member that may be left out says what it was made from under its name. -/
@[simp]
theorem given_whenGiven {α : Type} (name other : String) (value : Option α) (toJson : α → Json) :
    given (whenGiven name value toJson :: rest) other =
      if other = name then (value.map toJson).or (given rest other) else given rest other := by
  by_cases h : other = name
  · cases value <;> simp [given, whenGiven, h]
  · cases value <;> simp [given, whenGiven, List.lookup_cons, beq_false_of_ne h, h]

/-- Integers are told apart by their literals. -/
theorem integer_injective : Function.Injective Json.integer := fun _ _ h =>
  Int.repr_inj.mp (Json.number.inj h)

theorem bool_injective : Function.Injective Json.bool := fun _ _ => Json.bool.inj

theorem text_injective : Function.Injective Json.text := fun _ _ => Json.text.inj

end Json

open Json

/-! ### Parts of requests -/

/-- A write is told by its body. -/
theorem WriteEntry.body_injective : Function.Injective WriteEntry.body := by
  intro a b h
  have hgiven := given_congr h
  have hput : Function.Injective fun item : Item => Json.object [("Item", item.body)] :=
    fun item other hsame => Item.body_injective (by simpa using hsame)
  have hdelete : Function.Injective fun key : Item => Json.object [("Key", key.body)] :=
    fun key other hsame => Item.body_injective (by simpa using hsame)
  have hputs := Option.map_injective hput (by simpa using hgiven "PutRequest")
  have hdeletes := Option.map_injective hdelete (by simpa using hgiven "DeleteRequest")
  cases a
  cases b
  simp_all

/-- Keys and how they are read are told by their body. -/
theorem KeysEntry.body_injective : Function.Injective KeysEntry.body := by
  intro a b h
  have hgiven := given_congr h
  have hkeys := Item.body_injective.list_map (by simpa using hgiven "Keys")
  have hconsistent := Option.map_injective bool_injective (by simpa using hgiven "ConsistentRead")
  have hnames := Option.map_injective NameMap.body_injective
    (by simpa using hgiven "ExpressionAttributeNames")
  have hprojection := Option.map_injective text_injective
    (by simpa using hgiven "ProjectionExpression")
  cases a
  cases b
  simp_all

/-- The names of the members that stand in front of those of a read or a write. -/
def frontNames : List String :=
  ["Key", "Item", "UpdateExpression", "KeyConditionExpression", "ScanIndexForward"]

/-- Five members are given in the front of a request and nowhere else. -/
theorem not_mem_frontNames {name : String} : name ∉ frontNames ↔
    name ≠ "Key" ∧ name ≠ "Item" ∧ name ≠ "UpdateExpression" ∧ name ≠ "KeyConditionExpression" ∧
      name ≠ "ScanIndexForward" := by
  simp [frontNames]

/-- A read of single items is told by its members. -/
theorem ItemReadCall.eq_of_given {a b : ItemReadCall}
    (h : ∀ name ∉ frontNames, given a.members name = given b.members name) : a = b := by
  have htable : a.table = b.table := by simpa [members] using h "TableName" (by decide)
  have hconsistent := Option.map_injective bool_injective
    (by simpa [members] using h "ConsistentRead" (by decide))
  have hnames := Option.map_injective NameMap.body_injective
    (by simpa [members] using h "ExpressionAttributeNames" (by decide))
  have hprojection := Option.map_injective text_injective
    (by simpa [members] using h "ProjectionExpression" (by decide))
  cases a
  cases b
  simp_all

/-- A read of a page is told by its members. -/
theorem PageReadCall.eq_of_given {a b : PageReadCall}
    (h : ∀ name ∉ frontNames, given a.members name = given b.members name) : a = b := by
  have hinteger : Function.Injective fun limit : Int32 => Json.integer limit.toInt :=
    fun limit other hsame => Int32.toInt_inj.mp (integer_injective hsame)
  have htable : a.table = b.table := by simpa [members] using h "TableName" (by decide)
  have hindex := Option.map_injective text_injective
    (by simpa [members] using h "IndexName" (by decide))
  have hconsistent := Option.map_injective bool_injective
    (by simpa [members] using h "ConsistentRead" (by decide))
  have hstart := Option.map_injective Item.body_injective
    (by simpa [members] using h "ExclusiveStartKey" (by decide))
  have hlimit := Option.map_injective hinteger (by simpa [members] using h "Limit" (by decide))
  have hnames := Option.map_injective NameMap.body_injective
    (by simpa [members] using h "ExpressionAttributeNames" (by decide))
  have hvalues := Option.map_injective Item.body_injective
    (by simpa [members] using h "ExpressionAttributeValues" (by decide))
  have hfilter := Option.map_injective text_injective
    (by simpa [members] using h "FilterExpression" (by decide))
  have hprojection := Option.map_injective text_injective
    (by simpa [members] using h "ProjectionExpression" (by decide))
  have hselect := Option.map_injective text_injective
    (by simpa [members] using h "Select" (by decide))
  cases a
  cases b
  simp_all

/-- A write of a single item is told by its members. -/
theorem WriteCall.eq_of_given {a b : WriteCall}
    (h : ∀ name ∉ frontNames, given a.members name = given b.members name) : a = b := by
  have htable : a.table = b.table := by simpa [members] using h "TableName" (by decide)
  have hcondition := Option.map_injective text_injective
    (by simpa [members] using h "ConditionExpression" (by decide))
  have hnames := Option.map_injective NameMap.body_injective
    (by simpa [members] using h "ExpressionAttributeNames" (by decide))
  have hvalues := Option.map_injective Item.body_injective
    (by simpa [members] using h "ExpressionAttributeValues" (by decide))
  have hreturn := Option.map_injective text_injective
    (by simpa [members] using h "ReturnValues" (by decide))
  cases a
  cases b
  simp_all

/-- A map from tables is told by its body, if the parts are told by theirs. -/
theorem tables_injective {α : Type} {toJson : α → Json} (h : Function.Injective toJson) :
    Function.Injective fun tables : Fields α =>
      tables.map fun table => (table.1, toJson table.2) := by
  have htable : Function.Injective fun table : String × α => (table.1, toJson table.2) := by
    intro table other hsame
    obtain ⟨hname, hpart⟩ := Prod.mk.inj hsame
    exact Prod.ext hname (h hpart)
  exact htable.list_map

/-! ### Requests -/

/-- **A message tells which request it was made for.** -/
theorem ServiceRequest.message_inj {a b : ServiceRequest} (h : a.message = b.message) : a = b := by
  obtain ⟨hoperation, hbody⟩ := Message.mk.inj h
  have hgiven := given_congr hbody
  cases a with
  | getItem key read =>
    cases b with
    | getItem key' read' =>
      have hkey := Item.body_injective (by simpa [members] using hgiven "Key")
      have hread : read = read' := ItemReadCall.eq_of_given fun name hname => by
        simpa [members, not_mem_frontNames.mp hname] using hgiven name
      rw [hkey, hread]
    | _ => simp [operation] at hoperation
  | batchGet tables =>
    cases b with
    | batchGet tables' =>
      have htables := tables_injective KeysEntry.body_injective
        (by simpa [members] using hgiven "RequestItems")
      rw [htables]
    | _ => simp [operation] at hoperation
  | putItem item write =>
    cases b with
    | putItem item' write' =>
      have hitem := Item.body_injective (by simpa [members] using hgiven "Item")
      have hwrite : write = write' := WriteCall.eq_of_given fun name hname => by
        simpa [members, not_mem_frontNames.mp hname] using hgiven name
      rw [hitem, hwrite]
    | _ => simp [operation] at hoperation
  | updateItem key update write =>
    cases b with
    | updateItem key' update' write' =>
      have hkey := Item.body_injective (by simpa [members] using hgiven "Key")
      have hupdate : update = update' := by simpa [members] using hgiven "UpdateExpression"
      have hwrite : write = write' := WriteCall.eq_of_given fun name hname => by
        simpa [members, not_mem_frontNames.mp hname] using hgiven name
      rw [hkey, hupdate, hwrite]
    | _ => simp [operation] at hoperation
  | deleteItem key write =>
    cases b with
    | deleteItem key' write' =>
      have hkey := Item.body_injective (by simpa [members] using hgiven "Key")
      have hwrite : write = write' := WriteCall.eq_of_given fun name hname => by
        simpa [members, not_mem_frontNames.mp hname] using hgiven name
      rw [hkey, hwrite]
    | _ => simp [operation] at hoperation
  | query keyCondition forward read =>
    cases b with
    | query keyCondition' forward' read' =>
      have hcondition : keyCondition = keyCondition' := by
        simpa [members] using hgiven "KeyConditionExpression"
      have hforward := Option.map_injective bool_injective
        (by simpa [members, PageReadCall.members] using hgiven "ScanIndexForward")
      have hread : read = read' := PageReadCall.eq_of_given fun name hname => by
        simpa [members, not_mem_frontNames.mp hname] using hgiven name
      rw [hcondition, hforward, hread]
    | _ => simp [operation] at hoperation
  | scan read =>
    cases b with
    | scan read' =>
      have hread : read = read' := PageReadCall.eq_of_given fun name _ => hgiven name
      rw [hread]
    | _ => simp [operation] at hoperation
  | batchWrite tables =>
    cases b with
    | batchWrite tables' =>
      have hentries : Function.Injective fun entries : List WriteEntry =>
          Json.array (entries.map WriteEntry.body) :=
        fun entries others hsame => WriteEntry.body_injective.list_map (Json.array.inj hsame)
      have htables := tables_injective hentries (by simpa [members] using hgiven "RequestItems")
      rw [htables]
    | _ => simp [operation] at hoperation

/-- What JSON means to the service: a message makes the request that it was made for. -/
def Protocol.json : Protocol where
  Makes message request := request.isKnown = true ∧ request.message = message
  answer := ServiceRequest.decode

/-- What can be encoded in JSON is encoded as its message. -/
theorem Codec.encode_json {request : ServiceRequest} (hknown : request.isKnown = true) :
    Codec.json.encode request = .ok request.message :=
  if_pos hknown

/-- **The codec that speaks JSON is faithful.** -/
theorem Codec.faithful_json : Codec.json.Faithful Protocol.json where
  encodes request hknown := ⟨request.message, encode_json hknown⟩
  makes request message hencode other := by
    have hknown : request.isKnown = true := by
      by_contra hunknown
      simp [Codec.json, ServiceRequest.encode, hunknown] at hencode
    rw [encode_json hknown] at hencode
    obtain rfl := Except.ok.inj hencode
    constructor
    · rintro ⟨-, hsame⟩
      exact ServiceRequest.message_inj hsame
    · rintro rfl
      exact ⟨hknown, rfl⟩
  decodes request delivery := rfl

end KeywordTable
