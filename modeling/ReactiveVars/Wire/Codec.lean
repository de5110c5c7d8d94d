import ReactiveVars.Json.Printer
import ReactiveVars.Json.Reader
import ReactiveVars.Wire.Message

/-!
# The wire form of batches

A message is an object with its kind as `type`, or an array of its kind and its fields in order.
Fields that are absent, empty or false are left out when written, and may be missing when read. A
batch is an object with the field `messages`; an array of messages, or one message object, is read
as a batch that is no user event.
-/

namespace ReactiveVars

/-! ## Writing -/

/-- The properties as an object. -/
def Properties.json (ps : Properties) : Json :=
  .object (ps.entries.map fun e ↦ (e.1, .string e.2))

namespace Message

/-- A field that is written if it has a value. -/
def optional (name : String) (value : Option Json) : List (String × Json) :=
  (value.map fun v ↦ (name, v)).toList

/-- The field for properties, written if there are any. -/
def propertiesField (ps : Properties) : List (String × Json) :=
  if ps.isEmpty then [] else [("properties", ps.json)]

/-- A field that is written if it is true. -/
def flagField (name : String) (b : Bool) : List (String × Json) :=
  if b then [(name, .bool true)] else []

/-- The fields of a message behind its kind. -/
def fields : Message → List (String × Json)
  | create parent value properties id noWatch unbound =>
    [("parentId", .int parent)] ++ optional "value" value ++ propertiesField properties
      ++ optional "id" (id.map .int) ++ flagField "noWatch" noWatch ++ flagField "unbound" unbound
  | update id value properties =>
    [("id", .int id)] ++ optional "value" value ++ propertiesField properties
  | watch id | unwatch id | destroy id => [("id", .int id)]
  | error id code description =>
    [("id", .int id)] ++ optional "code" (code.map .string)
      ++ [("description", .string description)]

/-- The message as an object. -/
def json (m : Message) : Json := .object (("type", .string m.kind) :: m.fields)

end Message

namespace Batch

/-- The batch as an object. -/
def json (b : Batch) : Json :=
  .object [("userEvent", .bool b.userEvent), ("messages", .array (b.messages.map Message.json))]

/-- The text of a batch on the wire. -/
def text (b : Batch) : String := b.json.text

/-- The bytes of a batch on the wire. -/
def encode (b : Batch) : List UInt8 := Utf8.ofString b.text

end Batch

/-! ## Reading -/

/-- The properties that an object of texts holds. -/
def Properties.ofJson? (v : Json) : Option Properties := do
  let fields ← v.fields?
  let entries ← fields.mapM fun e ↦ e.2.string?.map fun s ↦ (e.1, s)
  return KeyMap.ofList entries

/-- The fields of a message, by name or by position. -/
inductive MessageFields where
  | named (fields : List (String × Json))
  | positional (items : List Json)

namespace MessageFields

/-- The field with a name, or at the position that the name has. -/
def get? (name : String) (position : Nat) : MessageFields → Option Json
  | named fields => Entries.find? name fields
  | positional items => items[position]?

/-- Whether there are no fields by position behind the first `n`. -/
def atMost (n : Nat) : MessageFields → Bool
  | named _ => true
  | positional items => items.length ≤ n

/-- Reads a field that may be missing. -/
def orElse {α : Type} (read : Json → Option α) (absent : α) : Option Json → Option α
  | none => some absent
  | some v => read v

/-- Reads a field that may be missing or null. -/
def orNull {α : Type} (read : Json → Option α) : Option Json → Option (Option α)
  | none | some .null => some none
  | some v => (read v).map some

end MessageFields

namespace Message

open MessageFields

/-- The message of a kind with the given fields. -/
def ofFields? (kind : String) (fs : MessageFields) : Option Message :=
  let id? := (fs.get? "id" 0).bind Json.signed?
  match kind with
  | "create" => do
    guard (fs.atMost 6)
    let parent ← orElse Json.signed? 0 (fs.get? "parentId" 0)
    let properties ← orElse Properties.ofJson? .empty (fs.get? "properties" 2)
    let id ← orNull Json.signed? (fs.get? "id" 3)
    let noWatch ← orElse Json.bool? false (fs.get? "noWatch" 4)
    let unbound ← orElse Json.bool? false (fs.get? "unbound" 5)
    return create parent (fs.get? "value" 1) properties id noWatch unbound
  | "update" => do
    guard (fs.atMost 3)
    let id ← id?
    let properties ← orElse Properties.ofJson? .empty (fs.get? "properties" 2)
    return update id (fs.get? "value" 1) properties
  | "watch" => do
    guard (fs.atMost 1)
    return watch (← id?)
  | "unwatch" => do
    guard (fs.atMost 1)
    return unwatch (← id?)
  | "destroy" => do
    guard (fs.atMost 1)
    return destroy (← id?)
  | "error" => do
    guard (fs.atMost 3)
    let id ← id?
    let code ← orNull Json.string? (fs.get? "code" 1)
    let description ← (fs.get? "description" 2).bind Json.string?
    return error id code description
  | _ => none

/-- Reads a message. -/
def ofJson? : Json → Option Message
  | .object fields =>
    match Entries.find? "type" fields with
    | some (.string kind) => ofFields? kind (.named fields)
    | _ => none
  | .array (.string kind :: items) => ofFields? kind (.positional items)
  | _ => none

end Message

/-- Why a payload is not a batch, or a frame not a payload. -/
inductive CodecError where
  | json (fault : Json.Fault)
  | unrecognizedShape
  | frameTooLarge (length maximum : Nat)
  /-- The stream ended inside a frame. -/
  | unexpectedEnd
  /-- The stream broke off. -/
  | connectionReset
deriving DecidableEq

/-- The wording of a codec error. -/
def CodecError.message : CodecError → String
  | json _ => "invalid json"
  | unrecognizedShape => "expected a message, an array of messages or a batch object"
  | frameTooLarge length maximum =>
    "frame too large: " ++ Nat.repr length ++ " > " ++ Nat.repr maximum
  | unexpectedEnd => "failed to fill whole buffer"
  | connectionReset => "connection reset"

namespace Batch

/-- Reads a batch from an object with the field `messages`. -/
def ofJson? (v : Json) : Option Batch := do
  let userEvent ← MessageFields.orElse Json.bool? false (v.field? "userEvent")
  let items ← (v.field? "messages").bind Json.items?
  return ⟨userEvent, ← items.mapM Message.ofJson?⟩

/-- Refuses JSON of another form than the wanted one. -/
def orUnfit {α : Type} : Option α → Except CodecError α
  | some a => .ok a
  | none => .error (.json .unfit)

/-- Reads a batch in any of its three forms. -/
def ofValue (v : Json) : Except CodecError Batch :=
  match v with
  | .array items => orUnfit ((items.mapM Message.ofJson?).map (Batch.mk false))
  | v =>
    if (v.field? "messages").isSome then orUnfit (ofJson? v)
    else if (v.field? "type").isSome then
      orUnfit ((Message.ofJson? v).map fun m ↦ ⟨false, [m]⟩)
    else .error .unrecognizedShape

/-- Reads a batch from the bytes of its wire form. -/
def decode (payload : List UInt8) : Except CodecError Batch :=
  match Json.read payload with
  | .ok v => ofValue v
  | .error fault => .error (.json fault)

end Batch

end ReactiveVars
