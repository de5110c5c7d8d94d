import ReactiveVars.Backend.Handler
import ReactiveVars.Frontend.Engine

/-!
# A backend and its frontends

An exchange brings the two sides together without anything between them but the order of messages.
In a round each frontend in turn sends what it has, the backend handles it, and what comes of it is
delivered before the next batch. Rounds go on until no frontend has anything to send. Everything
that passes is written down.
-/

namespace ReactiveVars

/-- A frontend in an exchange. A broken transport loses what it is handed. -/
structure Peer where
  engine : BindingEngine
  broken : Bool

namespace Peer

/-- The peer with other variables. -/
def withStore (p : Peer) (l : LocalStore) : Peer :=
  { p with engine := { p.engine with store := l } }

/-- Takes out what the transport has carried. -/
def takeSent (p : Peer) : List Batch × Peer :=
  let (sent, l) := p.engine.store.takeSent
  (if p.broken then [] else sent, p.withStore l)

end Peer

/-- A batch that has passed, from a frontend to the backend or the other way. -/
inductive Passage where
  | sent (sender : Observer) (batch : Batch)
  | delivered (receiver : Observer) (batch : Batch)

/-- The backend, the frontends by name, and what they have sent and the backend has not taken. -/
structure Exchange (σ : Type) where
  backend : Turn σ
  peers : KeyMap Observer Peer
  waiting : KeyMap Observer (List Batch)

namespace Exchange

variable {σ α : Type} [Application σ]

/-- Replaces a frontend and collects what it has sent. -/
def setPeer (x : Exchange σ) (name : Observer) (p : Peer) : Exchange σ :=
  let (sent, p) := p.takeSent
  { x with
    peers := x.peers.insert name p
    waiting := x.waiting.insert name ((x.waiting.get? name).getD [] ++ sent) }

/-- Delivers a batch to a frontend, if there is one of the name. -/
def deliverTo (x : Exchange σ) (name : Observer) (b : Batch) : Exchange σ :=
  match x.peers.get? name with
  | some p => x.setPeer name { p with engine := (p.engine.receive b).2 }
  | none => x

/-- Delivers what is to be sent, in one batch for each observer and in the order of the observers.
-/
def deliver (x : Exchange σ) (d : Dispatch) : List Passage × Exchange σ :=
  let receivers := (KeyMap.ofList (d.map fun e ↦ (e.1, ()))).keys
  receivers.foldl (fun (log, x) name ↦
    let b : Batch := ⟨false, d.forObserver name⟩
    (log ++ [.delivered name b], x.deliverTo name b)) ([], x)

/-- Runs a part of a turn of the backend and delivers what comes of it; the result is missing if the
part was cut short. -/
def perform (x : Exchange σ) (part : TurnM σ α) : Option α × List Passage × Exchange σ :=
  match part.run { x.backend with dispatch := [] } with
  | .ok a t =>
    let (log, x) := { x with backend := t }.deliver t.dispatch
    (some a, log, x)
  | .error _ t =>
    let (log, x) := { x with backend := t }.deliver t.dispatch
    (none, log, x)

/-- Has the backend take a batch of a frontend. -/
def take (w : WrapperRegistry) (x : Exchange σ) (name : Observer) (b : Batch) :
    List Passage × Exchange σ :=
  let (_, log, x) := x.perform (receiveBatch w name b)
  (.sent name b :: log, x)

/-- Has the backend take batches of a frontend in order. -/
def takeAll (w : WrapperRegistry) (name : Observer) :
    List Batch → Exchange σ → List Passage × Exchange σ
  | [], x => ([], x)
  | b :: bs, x =>
    let (log, x) := take w x name b
    let (more, x) := takeAll w name bs x
    (log ++ more, x)

/-- The turn of one frontend in a round; tells whether it had anything to send. -/
def turnOf (w : WrapperRegistry) (x : Exchange σ) (name : Observer) :
    Bool × List Passage × Exchange σ :=
  match x.peers.get? name with
  | none => (false, [], x)
  | some p =>
    let x := x.setPeer name { p with engine := p.engine.flushUserEvent }
    let sent := (x.waiting.get? name).getD []
    let (log, x) := takeAll w name sent { x with waiting := x.waiting.insert name [] }
    (!sent.isEmpty, log, x)

/-- The turns of several frontends in order; tells whether one of them had anything to send. -/
def round (w : WrapperRegistry) : List Observer → Exchange σ → Bool × List Passage × Exchange σ
  | [], x => (false, [], x)
  | name :: names, x =>
    let (sent, log, x) := turnOf w x name
    let (more, rest, x) := round w names x
    (sent || more, log ++ rest, x)

/-- At most so many rounds, until one in which nothing is sent. -/
def pump (w : WrapperRegistry) : Nat → Exchange σ → List Passage × Exchange σ
  | 0, x => ([], x)
  | n + 1, x =>
    let (sent, log, x) := round w x.peers.keys x
    if sent then
      let (more, x) := pump w n x
      (log ++ more, x)
    else (log, x)

/-- Ends the part of a frontend; returns what nobody watches any more. -/
def disconnect (x : Exchange σ) (name : Observer) : List VarId × Exchange σ :=
  let (released, _, x) := x.perform (unwatchAll name)
  (released.getD [], { x with peers := x.peers.erase name, waiting := x.waiting.erase name })

end Exchange

end ReactiveVars
