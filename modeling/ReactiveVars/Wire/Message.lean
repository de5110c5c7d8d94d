import ReactiveVars.Json.Basic
import ReactiveVars.Wire.Tier

/-!
# Messages and batches

The two sides exchange batches of messages about variables. An update is taken apart into one piece
per tier: its properties go with the tier their keys name, its value with the medium piece. Any
other message is one piece; a create is of the soonest tier that a key of its properties names.

A batch is processed in the order of the tiers of its pieces, and within a tier in its own order.
-/

namespace ReactiveVars

/-- The number of a variable, a signed one of 64 bits on the wire. Here numbers are unbounded, so
counting never comes to an end, whereas a counter of 64 bits overflows at the ends of its range. -/
abbrev VarId := Int

/-- A message about a variable. -/
inductive Message where
  | create (parent : VarId) (value : Option Json) (properties : Properties) (id : Option VarId)
      (noWatch unbound : Bool)
  | update (id : VarId) (value : Option Json) (properties : Properties)
  | watch (id : VarId)
  | unwatch (id : VarId)
  | destroy (id : VarId)
  | error (id : VarId) (code : Option String) (description : String)
deriving BEq

instance : Inhabited Message := ⟨.watch 0⟩

namespace Message

/-- The update of a value alone. -/
def ofValue (id : VarId) (value : Json) : Message := update id (some value) .empty

/-- The variable that the message names. -/
def id? : Message → Option VarId
  | create _ _ _ id _ _ => id
  | update id _ _ | watch id | unwatch id | destroy id | error id _ _ => some id

/-- The name of the kind of message. -/
def kind : Message → String
  | create .. => "create"
  | update .. => "update"
  | watch _ => "watch"
  | unwatch _ => "unwatch"
  | destroy _ => "destroy"
  | error .. => "error"

/-- Whether the message is sent at once and alone. -/
def isImmediate : Message → Bool
  | create .. => true
  | _ => false

/-- The tier of a create: the soonest that one of the keys names. -/
def createTier (properties : Properties) : Tier :=
  match properties.keys.map fun key ↦ (splitTier key).2 with
  | [] => .medium
  | tier :: tiers => tiers.foldl Tier.sooner tier

/-- The piece of an update for one tier, `none` if nothing is in it. -/
def updatePiece? (id : VarId) (value : Option Json) (properties : Properties) (tier : Tier) :
    Option (Tier × Message) :=
  let part := properties.ofTier tier
  let carried := if tier = .medium then value else none
  if carried.isSome || !part.isEmpty then some (tier, update id carried part) else none

/-- The pieces of a message, each with its tier. -/
def pieces : Message → List (Tier × Message)
  | update id value properties =>
    match Tier.all.filterMap (updatePiece? id value properties) with
    | [] => [(.medium, update id none .empty)]
    | found => found
  | create parent value properties id noWatch unbound =>
    [(createTier properties, create parent value properties id noWatch unbound)]
  | m => [(.medium, m)]

end Message

/-- Messages that travel together. -/
structure Batch where
  userEvent : Bool
  messages : List Message
deriving BEq

namespace Batch

/-- Whether the batch has no message. -/
def isEmpty (b : Batch) : Bool := b.messages.isEmpty

/-- The messages of one tier among pieces. -/
def inTier (ps : List (Tier × Message)) (tier : Tier) : List Message :=
  (ps.filter fun p ↦ p.1 = tier).map Prod.snd

/-- The pieces of the messages in the order in which they are processed. -/
def ordered (b : Batch) : List Message :=
  Tier.all.flatMap (inTier (b.messages.flatMap Message.pieces))

end Batch

end ReactiveVars
