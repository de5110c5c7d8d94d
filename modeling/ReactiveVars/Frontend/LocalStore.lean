import ReactiveVars.Frontend.Outbox
import ReactiveVars.Variable.Store
import ReactiveVars.Variable.WatchTally

/-!
# The variables of a frontend

A frontend has its own copy of the variables it deals with. What it changes it changes in its copy
at once and reports to the backend; batches from the backend change the copy only. A variable that
is unbound stays with the frontend: nothing is reported about it. The backend is told to watch a
variable with its first local watcher, and not to with its last.
-/

namespace ReactiveVars

/-- What a batch from the backend did to the copy. -/
inductive Inbound where
  | created (id : VarId)
  | updated (id : VarId)
  | destroyed (id : VarId)
  | failed (id : VarId) (code : Option String) (description : String)
deriving DecidableEq

/-- The variables of a frontend, their local watchers and the reports to the backend. -/
structure LocalStore where
  store : Store
  tally : WatchTally
  outbox : Outbox

namespace LocalStore

/-- The copy with a placeholder for the root alone, and the numbers of new variables from `base` on.
-/
def withBase (window : Nat) (base : VarId) : LocalStore where
  store := ((Store.withIds (.frontendFrom base)).insert
    ⟨some rootId, noParent, .null, .empty, false⟩).2
  tally := .empty
  outbox := .new window

/-- The copy with a placeholder for the root alone. -/
def new (window : Nat) : LocalStore := withBase window (rootId + 1)

/-- The variable with a number. -/
def get? (l : LocalStore) (id : VarId) : Option Variable := l.store.get? id

/-- The value of a variable. -/
def value? (l : LocalStore) (id : VarId) : Option Json := (l.get? id).map Variable.value

/-- Whether a variable stays with the frontend. -/
def isUnbound (l : LocalStore) (id : VarId) : Bool := ((l.get? id).map Variable.unbound).getD false

/-- The number of local watchers of a variable. -/
def watcherCount (l : LocalStore) (id : VarId) : Nat := l.tally.count id

/-- Reports to the backend. -/
def report (l : LocalStore) (now : Nat) (m : Message) : LocalStore :=
  { l with outbox := l.outbox.queue now m }

/-! ## Local changes -/

/-- Creates a variable, watched by an observer if one is given. -/
def create (l : LocalStore) (now : Nat) (parent : VarId) (value : Option Json) (ps : Properties)
    (observer : Option Observer) (unbound : Bool) : Except SyncError VarId × LocalStore :=
  match l.store.insert ⟨none, parent, value.getD .null, ps, unbound⟩ with
  | (.error e, store) => (.error e, { l with store := store })
  | (.ok id, store) =>
    let tally := match observer with
      | some o => (l.tally.watch id o).2
      | none => l.tally
    let l := { l with store := store, tally := tally }
    (.ok id, if unbound then l
      else l.report now (.create parent value ps (some id) observer.isNone false))

/-- Updates a variable. -/
def update (l : LocalStore) (now : Nat) (id : VarId) (value : Option Json) (ps : Properties) :
    Except SyncError LocalStore :=
  (l.store.update id value ps).map fun store ↦
    if l.isUnbound id then { l with store := store }
    else { l with store := store }.report now (.update id value ps)

/-- Counts an observer in; returns the value of the variable. -/
def watch (l : LocalStore) (now : Nat) (id : VarId) (observer : Observer) :
    Except SyncError (Json × LocalStore) :=
  match l.get? id with
  | none => .error (.unknownVariable id)
  | some v =>
    let (outcome, tally) := l.tally.watch id observer
    let l' := { l with tally := tally }
    .ok (v.value, if outcome.edge && !l.isUnbound id then l'.report now (.watch id) else l')

/-- Counts an observer out. -/
def unwatch (l : LocalStore) (now : Nat) (id : VarId) (observer : Observer) : LocalStore :=
  let (outcome, tally) := l.tally.unwatch id observer
  let l' := { l with tally := tally }
  if outcome.edge && !l.isUnbound id then l'.report now (.unwatch id) else l'

/-- Drops variables from the tally. -/
def forgetAll (tally : WatchTally) (ids : List VarId) : WatchTally :=
  ids.foldl (fun t id ↦ (t.forget id).2) tally

/-- Destroys a variable and its descendants; returns their numbers in the order of removal. -/
def destroy (l : LocalStore) (now : Nat) (id : VarId) : List VarId × LocalStore :=
  let (removed, store) := l.store.destroy id
  let l' := { l with store := store, tally := forgetAll l.tally removed }
  (removed, if !removed.isEmpty && !l.isUnbound id then l'.report now (.destroy id) else l')

/-! ## Batches from the backend -/

/-- Takes in a variable that the backend tells of. -/
def takeIn (s : Store) (id parent : VarId) (value : Option Json) (ps : Properties)
    (unbound : Bool) : Except SyncError Store :=
  if s.contains id then s.update id value ps
  else s.insertAs id ⟨some id, parent, value.getD .null, ps, unbound⟩

/-- Applies a message; returns what it did. -/
def applyMessage (l : LocalStore) : Message → List Inbound × LocalStore
  | .create parent value ps (some id) _ unbound =>
    match takeIn l.store id parent value ps unbound with
    | .ok store => ([.created id], { l with store := store })
    | .error _ => ([], l)
  | .update id value ps =>
    match l.store.update id value ps with
    | .ok store => ([.updated id], { l with store := store })
    | .error _ => ([], l)
  | .destroy id =>
    let (removed, store) := l.store.destroy id
    (removed.map .destroyed, { l with store := store, tally := forgetAll l.tally removed })
  | .error id code description => ([.failed id code description], l)
  | _ => ([], l)

/-- Applies messages in order; returns what they did. -/
def applyAll (l : LocalStore) : List Message → List Inbound × LocalStore
  | [] => ([], l)
  | m :: ms =>
    let (events, l') := l.applyMessage m
    let (more, l'') := l'.applyAll ms
    (events ++ more, l'')

/-- Applies a batch from the backend; returns what it did. -/
def apply (l : LocalStore) (b : Batch) : List Inbound × LocalStore := l.applyAll b.ordered

/-! ## Sending -/

/-- Sends the reports that wait once their deadline has been reached, and tells whether it has. -/
def poll (l : LocalStore) (now : Nat) : Bool × LocalStore :=
  let (due, outbox) := l.outbox.poll now
  (due, { l with outbox := outbox })

/-- Sends the reports that wait as a user event. -/
def flushUserEvent (l : LocalStore) : LocalStore := { l with outbox := l.outbox.flush true }

/-- Takes out the batches handed to the transport so far. -/
def takeSent (l : LocalStore) : List Batch × LocalStore :=
  (l.outbox.sent, { l with outbox := l.outbox.takeSent.2 })

end LocalStore

end ReactiveVars
