import ReactiveVars.Backend.Handler
import ReactiveVars.Delivery.Batcher
import ReactiveVars.Session.Executor

/-!
# Sessions

A session connects observers to one backend and one application. Each connection has a batcher of
its own. Traffic that is no user event sets the deadline of the sender's batcher before it is
processed; a user event is answered by sending at once whatever waits for those who are told
something.

The application belongs to an executor, and is gone after a crash; the variables are not.
-/

namespace ReactiveVars

/-- A session. -/
structure Session (σ : Type) where
  label : String
  window : Nat
  wrappers : WrapperRegistry
  state : SessionState
  executor : Executor σ
  connections : KeyMap Observer Batcher

/-- The state of a session with the root variable alone. -/
def SessionState.withRoot (value : Json) : SessionState :=
  { SessionState.empty with
    store := (Store.empty.insert ⟨some rootId, noParent, value, .empty, false⟩).2 }

namespace Session

variable {σ α : Type} [Application σ]

/-- A session for an application, without connections. -/
def new (label : String) (window : Nat) (wrappers : WrapperRegistry) (app : σ) : Session σ :=
  ⟨label, window, wrappers, .withRoot (Application.rootValue app), .new app, .empty⟩

/-! ## Turns -/

/-- Runs a turn; returns its result and what is to be sent. -/
def perform (s : Session σ) (x : TurnM σ α) : Except SyncError (α × Dispatch) × Session σ :=
  match s.executor.owned with
  | none => (.error .executorClosed, s)
  | some app =>
    match x.run ⟨s.state, app, []⟩ with
    | .ok a t => (.ok (a, t.dispatch), { s with state := t.session, executor := .new t.app })
    | .error (.refused e) t => (.error e, { s with state := t.session, executor := .new t.app })
    | .error .crashed t =>
      (.error .executorClosed, { s with state := t.session, executor := ⟨none⟩ })

/-- Hands a message to the batcher of an observer; without connection it is dropped. -/
def post (s : Session σ) (now : Nat) (observer : Observer) (m : Message) : Session σ :=
  { s with connections := s.connections.modify observer fun b ↦ b.queue now m }

/-- Hands messages to the batchers in order. -/
def postAll (s : Session σ) (now : Nat) (d : Dispatch) : Session σ :=
  d.foldl (fun s e ↦ s.post now e.1 e.2) s

/-- Sends what waits for those who are told something. -/
def flushTold (s : Session σ) (d : Dispatch) : Session σ :=
  let told (observer : Observer) : Bool := d.any fun e ↦ e.1 = observer
  { s with
    connections := s.connections.filterMap fun observer b ↦
      some (if told observer then b.flush true else b) }

/-- Delivers the messages of a turn; those that answer a user event are sent at once. -/
def deliver (s : Session σ) (now : Nat) (userEvent : Bool) (d : Dispatch) : Session σ :=
  if userEvent then (s.postAll now d).flushTold d else s.postAll now d

/-- Runs a turn and delivers its messages. -/
def runTurn (s : Session σ) (now : Nat) (userEvent : Bool) (x : TurnM σ α) :
    Except SyncError α × Session σ :=
  match s.perform x with
  | (.ok (a, d), s') => (.ok a, s'.deliver now userEvent d)
  | (.error e, s') => (.error e, s')

/-! ## Observers -/

/-- Connects an observer; a connection that it had is given up with whatever waited in it. -/
def connect (s : Session σ) (observer : Observer) : Session σ :=
  { s with connections := s.connections.insert observer (.new s.window) }

/-- Whether an observer is connected. -/
def isConnected (s : Session σ) (observer : Observer) : Bool := s.connections.contains observer

/-- Sets the deadline of a batcher ahead of processing. -/
def armFor (s : Session σ) (now : Nat) (observer : Observer) : Session σ :=
  { s with connections := s.connections.modify observer fun b ↦ b.arm now }

/-- Processes a batch from an observer. -/
def receive (s : Session σ) (now : Nat) (observer : Observer) (b : Batch) :
    Except SyncError Unit × Session σ :=
  let s := if b.userEvent then s else s.armFor now observer
  match s.runTurn now b.userEvent (receiveBatch s.wrappers observer b) with
  | (.ok _, s') => (.ok (), s')
  | (.error e, s') => (.error e, s')

/-- Ends the connection of an observer and all it watches; returns what nobody watches any more. -/
def disconnect (s : Session σ) (now : Nat) (observer : Observer) :
    Except SyncError (List VarId) × Session σ :=
  { s with connections := s.connections.erase observer }.runTurn now false (unwatchAll observer)

/-! ## The backend's own account -/

/-- Creates a variable. -/
def createVariable (s : Session σ) (now : Nat) (parent : VarId) (value : Json) (ps : Properties) :
    Except SyncError VarId × Session σ :=
  s.runTurn now false (create s.wrappers none ⟨parent, some value, ps, none, false, false⟩)

/-- Destroys a variable and its descendants. -/
def destroyVariable (s : Session σ) (now : Nat) (id : VarId) : Except SyncError Unit × Session σ :=
  s.runTurn now false (destroy none id)

/-- Detects changes; returns how many there are. -/
def refresh (s : Session σ) (now : Nat) : Except SyncError Nat × Session σ :=
  s.runTurn now false (detectChanges s.wrappers)

/-- Sets the value of a variable and detects changes. -/
def setValue (s : Session σ) (now : Nat) (id : VarId) (value : Json) :
    Except SyncError Unit × Session σ :=
  match s.state.store.update id (some value) .empty with
  | .error e => (.error e, s)
  | .ok store =>
    match { s with state := { s.state with store := store } }.refresh now with
    | (.ok _, s') => (.ok (), s')
    | (.error e, s') => (.error e, s')

/-- Uses the application directly; a job without result has crashed it. -/
def withApplication (s : Session σ) (job : σ → Option α × σ) : Except SyncError α × Session σ :=
  let (result, executor) := s.executor.execute job
  (result, { s with executor := executor })

/-- The value of a variable. -/
def value? (s : Session σ) (id : VarId) : Option Json := (s.state.store.get? id).map Variable.value

/-- The number of observers of a variable. -/
def watcherCount (s : Session σ) (id : VarId) : Nat := s.state.tally.count id

/-! ## Time -/

/-- Sends what waits in every batcher whose deadline has been reached. -/
def expire (s : Session σ) (now : Nat) : Session σ :=
  { s with connections := s.connections.filterMap fun _ b ↦ some (b.expire now) }

/-- The earliest deadline of a batcher. -/
def nextDeadline (s : Session σ) : Option Nat :=
  (s.connections.values.filterMap Batcher.deadline).min?

/-- Takes out the batches sent so far, by observer. -/
def takeSent (s : Session σ) : List (Observer × List Batch) × Session σ :=
  (s.connections.entries.map fun e ↦ (e.1, e.2.sent),
    { s with connections := s.connections.filterMap fun _ b ↦ some b.takeSent.2 })

end Session

end ReactiveVars
