import ReactiveVars.Delivery.TierQueue
import ReactiveVars.Wire.Message

/-!
# The outbox of a frontend

Messages to the backend wait until none has been added for a while, and leave as one batch. A create
does not wait: it leaves at once and alone. Times are numbers of milliseconds.
-/

namespace ReactiveVars

/-- The messages that wait, until when, and the batches handed to the transport so far. -/
structure Outbox where
  /-- How long nothing may come before the messages leave. -/
  window : Nat
  waiting : TierQueue Message
  deadline : Option Nat
  /-- The batches handed over, the oldest first. -/
  sent : List Batch

namespace Outbox

/-- An outbox in which nothing waits. -/
def new (window : Nat) : Outbox := ⟨window, .empty, none, []⟩

/-- The number of messages that wait. -/
def pending (o : Outbox) : Nat := o.waiting.size

/-- Hands a batch to the transport. -/
def send (o : Outbox) (b : Batch) : Outbox := { o with sent := o.sent ++ [b] }

/-- Takes one piece of a message. -/
def add (o : Outbox) (now : Nat) (tier : Tier) (piece : Message) : Outbox :=
  if piece.isImmediate then o.send ⟨false, [piece]⟩
  else { o with waiting := o.waiting.push tier piece, deadline := some (now + o.window) }

/-- Takes a message. -/
def queue (o : Outbox) (now : Nat) (m : Message) : Outbox :=
  m.pieces.foldl (fun o p ↦ o.add now p.1 p.2) o

/-- Sends what waits, if anything does. -/
def flush (o : Outbox) (userEvent : Bool) : Outbox :=
  if o.waiting.isEmpty then { o with deadline := none }
  else { o with waiting := .empty, deadline := none }.send ⟨userEvent, o.waiting.toList⟩

/-- Whether the deadline has been reached. -/
def isDue (o : Outbox) (now : Nat) : Bool :=
  match o.deadline with
  | some deadline => deadline ≤ now
  | none => false

/-- Sends what waits once the deadline has been reached, and tells whether it has. -/
def poll (o : Outbox) (now : Nat) : Bool × Outbox :=
  if o.isDue now then (true, o.flush false) else (false, o)

/-- Takes out the batches handed to the transport so far. -/
def takeSent (o : Outbox) : List Batch × Outbox := (o.sent, { o with sent := [] })

end Outbox

end ReactiveVars
