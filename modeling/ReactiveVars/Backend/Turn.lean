import ReactiveVars.Application.Basic
import ReactiveVars.Backend.Tracker
import ReactiveVars.Variable.Store
import ReactiveVars.Variable.WatchTally

/-!
# Turns of the backend

The backend works in turns. A turn has the state of the session, the application, and the messages
that are to be sent when it is over. Whatever happens in it happens in order: a turn that is cut
short, by a refusal or by a crash of the application, keeps what it has changed so far.
-/

namespace ReactiveVars

/-- The variables, who watches them, and what the watchers were last told. -/
structure SessionState where
  store : Store
  tally : WatchTally
  tracker : Tracker

/-- The state of a session without variables. -/
def SessionState.empty : SessionState := ⟨.empty, .empty, .empty⟩

/-- Messages with the observers they are for, in the order in which they are sent. -/
abbrev Dispatch := List (Observer × Message)

/-- The messages for one observer. -/
def Dispatch.forObserver (d : Dispatch) (observer : Observer) : List Message :=
  (d.filter fun e ↦ e.1 = observer).map Prod.snd

/-- What a turn works on. -/
structure Turn (σ : Type) where
  session : SessionState
  app : σ
  dispatch : Dispatch

/-- Why a turn is cut short. -/
inductive Halt where
  | refused (e : SyncError)
  | crashed
deriving DecidableEq

/-- A part of a turn. -/
abbrev TurnM (σ : Type) := EStateM Halt (Turn σ)

namespace TurnM

variable {σ α : Type}

/-- The variables as they are now. -/
def store : TurnM σ Store := return (← get).session.store

/-- The watchers as they are now. -/
def tally : TurnM σ WatchTally := return (← get).session.tally

/-- The tracked variables as they are now. -/
def tracker : TurnM σ Tracker := return (← get).session.tracker

/-- Changes the variables. -/
def modifyStore (f : Store → Store) : TurnM σ Unit :=
  modify fun t ↦ { t with session := { t.session with store := f t.session.store } }

/-- Changes who watches what. -/
def modifyTally (f : WatchTally → WatchTally) : TurnM σ Unit :=
  modify fun t ↦ { t with session := { t.session with tally := f t.session.tally } }

/-- Changes what is tracked. -/
def modifyTracker (f : Tracker → Tracker) : TurnM σ Unit :=
  modify fun t ↦ { t with session := { t.session with tracker := f t.session.tracker } }

/-- Refuses what is asked for. -/
def refuse (e : SyncError) : TurnM σ α := throw (.refused e)

/-- Goes on with a result, or refuses. -/
def orRefuse : Except SyncError α → TurnM σ α
  | .ok a => return a
  | .error e => refuse e

/-- Asks something of the application; a crash ends the turn. -/
def ask (request : σ → Reply α × σ) : TurnM σ (Except String α) := fun t ↦
  match request t.app with
  | (.ok a, app) => .ok (.ok a) { t with app := app }
  | (.failed reason, app) => .ok (.error reason) { t with app := app }
  | (.crashed, app) => .error .crashed { t with app := app }

/-- Sends a message to an observer. -/
def send (observer : Observer) (m : Message) : TurnM σ Unit :=
  modify fun t ↦ { t with dispatch := t.dispatch ++ [(observer, m)] }

/-- Sends a message to several observers. -/
def sendAll (observers : List Observer) (m : Message) : TurnM σ Unit :=
  modify fun t ↦ { t with dispatch := t.dispatch ++ observers.map fun observer ↦ (observer, m) }

/-- What comes of a part that may be refused: a refusal is a result of it, a crash still ends the
turn. -/
def attempt (x : TurnM σ α) : TurnM σ (Except SyncError α) := fun t ↦
  match x t with
  | .ok a t' => .ok (.ok a) t'
  | .error (.refused e) t' => .ok (.error e) t'
  | .error .crashed t' => .error .crashed t'

end TurnM

end ReactiveVars
