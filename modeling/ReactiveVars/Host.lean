import ReactiveVars.Application.ContactBook
import ReactiveVars.Session.Basic
import ReactiveVars.Settings.Basic
import ReactiveVars.Wire.Frame

/-!
# Hosting a session on a byte stream

The host offers the contact book to one observer at the other end of a byte stream. Each frame that
arrives is given to the session; one that cannot be read is answered with an error instead. When the
stream ends the observer is disconnected.
-/

namespace ReactiveVars

/-- A session with one observer, and the batches to be written. -/
structure Host where
  session : Session ObjectSpace
  outgoing : List Batch

namespace Host

/-- The name of the observer at the other end of the stream. -/
def observer : Observer := "stdio"

/-- The wrappers that the host knows, and the session connected to its observer. -/
def start (settings : Settings) : Host where
  session :=
    (Session.new settings.session settings.debounce .standard ContactBook.space).connect observer
  outgoing := []

/-- Takes over the batches that the session has sent. -/
def collect (h : Host) : Host :=
  let (sent, session) := h.session.takeSent
  { session := session, outgoing := h.outgoing ++ sent.flatMap Prod.snd }

/-- The answer to a frame that cannot be read. -/
def refusal (e : CodecError) : Batch := ⟨false, [(SyncError.badRequest 0 e.message).message]⟩

/-- Takes what a frame holds. A batch that the session cannot process is dropped. -/
def receive (h : Host) (now : Nat) : Except CodecError Batch → Host
  | .ok b => { h with session := (h.session.receive now observer b).2 }.collect
  | .error e => { h with outgoing := h.outgoing ++ [refusal e] }

/-- Sends what has waited long enough. -/
def expire (h : Host) (now : Nat) : Host := { h with session := h.session.expire now }.collect

/-- Takes out the batches to be written. -/
def takeOutgoing (h : Host) : List Batch × Host := (h.outgoing, { h with outgoing := [] })

/-- The exit status after the end of the stream: it tells whether the application is gone. -/
def finish (h : Host) (now : Nat) : UInt32 :=
  match (h.session.disconnect now observer).1 with
  | .ok _ => 0
  | .error _ => 1

/-- Everything at once: the exit status and the batches written for a stream that arrives before any
deadline. -/
def transcript (settings : Settings) (stream : List UInt8) : UInt32 × List Batch :=
  let found := (Frame.readAll settings.maxFrame .closed stream).1
  let h := found.foldl (fun h frame ↦ h.receive 0 frame) (start settings)
  (h.finish 0, h.outgoing.filter fun b ↦ b.encode.length ≤ settings.maxFrame)

end Host

end ReactiveVars
