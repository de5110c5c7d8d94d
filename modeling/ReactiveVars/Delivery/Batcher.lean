import ReactiveVars.Delivery.TierQueue
import ReactiveVars.Wire.Message

/-!
# Gathering outgoing messages

A batcher gathers the messages for one observer until none has come for a while, and then sends them
as one batch. Each message puts the deadline off, unless it was pinned before by the arrival of
traffic that the messages answer. A create does not wait: it is sent at once and alone. Times are
numbers of milliseconds.
-/

namespace ReactiveVars

/-- The messages that wait, until when, and the batches sent so far. -/
structure Batcher where
  /-- How long nothing may come before the messages leave. -/
  window : Nat
  waiting : TierQueue Message
  deadline : Option Nat
  /-- Whether further messages leave the deadline as it is. -/
  pinned : Bool
  /-- The batches sent, the oldest first. -/
  sent : List Batch

namespace Batcher

/-- A batcher in which nothing waits. -/
def new (window : Nat) : Batcher := ⟨window, .empty, none, false, []⟩

/-- The number of messages that wait. -/
def pending (b : Batcher) : Nat := b.waiting.size

/-- Sends a batch. -/
def send (b : Batcher) (batch : Batch) : Batcher := { b with sent := b.sent ++ [batch] }

/-- Takes a message of a tier. -/
def enqueue (b : Batcher) (now : Nat) (tier : Tier) (m : Message) : Batcher :=
  if m.isImmediate then b.send ⟨false, [m]⟩
  else
    { b with
      waiting := b.waiting.push tier m
      deadline := if b.pinned then b.deadline else some (now + b.window) }

/-- Takes the pieces of a message. -/
def queue (b : Batcher) (now : Nat) (m : Message) : Batcher :=
  m.pieces.foldl (fun b p ↦ b.enqueue now p.1 p.2) b

/-- Sets a deadline that stays, if none is set. -/
def arm (b : Batcher) (now : Nat) : Batcher :=
  if b.deadline.isNone then { b with deadline := some (now + b.window), pinned := true } else b

/-- Sends what waits, if anything does. -/
def flush (b : Batcher) (userEvent : Bool) : Batcher :=
  let idle := { b with waiting := .empty, deadline := none, pinned := false }
  if b.waiting.isEmpty then idle else idle.send ⟨userEvent, b.waiting.toList⟩

/-- Forgets what waits. -/
def clear (b : Batcher) : Batcher := { b with waiting := .empty, deadline := none, pinned := false }

/-- Whether the deadline has been reached. -/
def isDue (b : Batcher) (now : Nat) : Bool :=
  match b.deadline with
  | some deadline => deadline ≤ now
  | none => false

/-- Sends what waits once the deadline has been reached. -/
def expire (b : Batcher) (now : Nat) : Batcher := if b.isDue now then b.flush false else b

/-- Takes out the batches sent so far. -/
def takeSent (b : Batcher) : List Batch × Batcher := (b.sent, { b with sent := [] })

end Batcher

end ReactiveVars
