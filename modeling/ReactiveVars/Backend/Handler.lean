import ReactiveVars.Backend.Presented

/-!
# Handling messages

The backend's answers to messages, and what it does on its own account.

* A create without number is answered with the whole variable; a create on the backend's own account
  is announced to the watchers of the parent. The creator watches the variable unless it asks not
  to.
* An update is relayed to the other watchers. A value for a suspended variable is ignored.
* A watch is answered with the value and the properties; the first watcher of a variable starts its
  tracking, and the last one to go ends it.
* A destroyed variable is announced to its other watchers.
* Change detection tells the watchers of a tracked variable its presented value when its text has
  changed.
* A refused message is answered with its error.
-/

namespace ReactiveVars

open TurnM

variable {σ : Type} [Application σ]

/-! ## Watching -/

/-- Counts an observer in as a watcher, and tells it value and properties if asked to. -/
def watch (w : WrapperRegistry) (observer : Observer) (id : VarId) (snapshot : Bool) :
    TurnM σ Unit := do
  let outcome := ((← tally).watch id observer).1
  modifyTally fun t ↦ (t.watch id observer).2
  let value ← present w id
  if outcome.edge then
    modifyStore fun s ↦ s.setActive id true
    modifyTracker fun t ↦ t.activate id value
  if snapshot then
    let properties := (((← store).get? id).map Variable.properties).getD .empty
    send observer (.update id (some value) properties)

/-- Ends the tracking of a variable that nobody watches any more. -/
def release (id : VarId) : TurnM σ Unit := do
  modifyStore fun s ↦ s.setActive id false
  modifyTracker fun t ↦ t.deactivate id

/-- Counts an observer out as a watcher. -/
def unwatch (observer : Observer) (id : VarId) : TurnM σ Unit := do
  let outcome := ((← tally).unwatch id observer).1
  modifyTally fun t ↦ (t.unwatch id observer).2
  if outcome.edge then release id

/-- Ends the tracking of several variables. -/
def releaseAll : List VarId → TurnM σ Unit
  | [] => return
  | id :: ids => do
    release id
    releaseAll ids

/-- Counts an observer out everywhere; returns the variables that nobody watches any more. -/
def unwatchAll (observer : Observer) : TurnM σ (List VarId) := do
  let released := ((← tally).unwatchAll observer).1
  modifyTally fun t ↦ (t.unwatchAll observer).2
  releaseAll released
  return released

/-! ## Creating -/

/-- A request for a new variable. -/
structure CreateRequest where
  parent : VarId
  value : Option Json
  properties : Properties
  id : Option VarId
  noWatch : Bool
  unbound : Bool

/-- The value of the first key that is the given name when its tier is left aside. -/
def Properties.base? (ps : Properties) (name : String) : Option String :=
  (ps.entries.find? fun e ↦ (splitTier e.1).1 = name).map Prod.snd

/-- Adds properties under the keys that no key names yet. -/
def Properties.fillIn (ps : Properties) (more : List (String × String)) : Properties :=
  more.foldl (fun ps e ↦ if (ps.base? e.1).isNone then ps.insert e.1 e.2 else ps) ps

/-- The requested properties together with the parameters of the requested path. -/
def withPathParams (id : VarId) (ps : Properties) : Except SyncError Properties :=
  match ps.base? pathProperty with
  | none => .ok ps
  | some raw =>
    match Path.parse raw with
    | .ok path => .ok (ps.fillIn path.properties.entries)
    | .error e => .error (.badRequest id e.message)

/-- The type of object that properties ask for. -/
def Properties.createType? (ps : Properties) : Option String :=
  (ps.base? createProperty).filter fun t ↦ !t.isEmpty

/-- Whether properties ask for a value other than the requested one. -/
def Properties.areDerived (ps : Properties) : Bool :=
  ps.createType?.isSome || (ps.base? pathProperty).isSome

/-- The value a variable starts with: a new object of the type asked for, or else the requested
value. -/
def initialValue (id : VarId) (ps : Properties) (value : Option Json) : TurnM σ Json := do
  match ps.createType? with
  | none => return value.getD .null
  | some typeName =>
    match ← ask fun app ↦ Application.instantiate app typeName ps with
    | .ok r => return r.json
    | .error _ => refuse (.invalidType id typeName)

/-- The message that tells all of a variable. -/
def createMessage (w : WrapperRegistry) (id : VarId) (noWatch : Bool) : TurnM σ Message := do
  let value ← present w id
  match (← store).get? id with
  | some v => return .create v.parent (some value) v.properties (some id) noWatch v.unbound
  | none => refuse (.unknownVariable id)

/-- The requested number, or else a new one. -/
def chooseId : Option VarId → TurnM σ VarId
  | some id => return id
  | none => do
    let id := (← store).vend.1
    modifyStore fun s ↦ s.vend.2
    return id

/-- Inserts a variable with a number that is free. -/
def insertVariable (id : VarId) (new : NewVariable) : TurnM σ Unit := do
  let s ← orRefuse ((← store).insertAs id new)
  modifyStore fun _ ↦ s

/-- Answers the creator of a variable: an echo if it does not know the number yet, then its watch
unless it does not want one. -/
def answerCreator (w : WrapperRegistry) (creator : Observer) (request : CreateRequest) (id : VarId)
    (derived : Bool) : TurnM σ Unit := do
  if request.id.isNone then
    send creator (← createMessage w id request.noWatch)
  if !request.noWatch then
    watch w creator id derived

/-- Announces a variable to the watchers of its parent. -/
def announce (w : WrapperRegistry) (parent id : VarId) : TurnM σ Unit := do
  let m ← createMessage w id false
  sendAll ((← tally).watchers parent) m

/-- Creates a variable, for a creator or on the backend's own account. -/
def create (w : WrapperRegistry) (creator : Option Observer) (request : CreateRequest) :
    TurnM σ VarId := do
  let id ← chooseId request.id
  orRefuse ((← store).checkNew id request.parent)
  let properties ← orRefuse (withPathParams id request.properties)
  let value ← initialValue id properties request.value
  insertVariable id ⟨some id, request.parent, value, properties, request.unbound⟩
  match creator with
  | some observer => answerCreator w observer request id properties.areDerived
  | none => announce w request.parent id
  return id

/-! ## Updating and destroying -/

/-- The value of an update that counts: none for a suspended variable. -/
def effectiveValue (s : Store) (id : VarId) (value : Option Json) : Option Json :=
  if s.isSuspended id then none else value

/-- Stores the value and the properties of an update. -/
def storeUpdate (id : VarId) (value : Option Json) (ps : Properties) : TurnM σ Unit := do
  let s ← orRefuse ((← store).update id value ps)
  modifyStore fun _ ↦ s

/-- Updates a variable for an observer. -/
def update (w : WrapperRegistry) (observer : Observer) (id : VarId) (value : Option Json)
    (ps : Properties) : TurnM σ Unit := do
  match (← store).get? id with
  | none => refuse (.unknownVariable id)
  | some v =>
    let value := effectiveValue (← store) id value
    match value with
    | none => storeUpdate id none ps
    | some new =>
      if v.path?.isSome then writeThrough w id new
      storeUpdate id (some new) ps
      modifyTracker fun t ↦ t.remember id new
    if value.isSome || !ps.isEmpty then
      let others := ((← tally).watchers id).filter (· ≠ observer)
      sendAll others (.update id value ps)

/-- Destroys a variable and its descendants, for an observer or on the backend's own account. -/
def destroy (observer : Option Observer) (id : VarId) : TurnM σ Unit := do
  let watchers := (← tally).watchers id
  let removed := ((← store).destroy id).1
  if !removed.isEmpty then
    modifyStore fun s ↦ (s.destroy id).2
    modifyTally fun t ↦ removed.foldl (fun t id ↦ (t.forget id).2) t
    modifyTracker fun t ↦ removed.foldl Tracker.deactivate t
    sendAll (watchers.filter fun o ↦ some o ≠ observer) (.destroy id)

/-! ## Detecting changes -/

/-- A presented value that differs from the one last told. -/
structure Change where
  id : VarId
  value : Json

/-- Puts a number in its place, before those of the same rank. -/
def insertByRank (rank : VarId → Nat) (id : VarId) : List VarId → List VarId
  | [] => [id]
  | k :: ks => if rank id ≤ rank k then id :: k :: ks else k :: insertByRank rank id ks

/-- Numbers by ascending rank; those of the same rank stay in order. -/
def sortByRank (rank : VarId → Nat) (ids : List VarId) : List VarId :=
  ids.foldr (insertByRank rank) []

/-- The tracked variables whose changes count, ancestors first. -/
def SessionState.examined (s : SessionState) : List VarId :=
  sortByRank (fun id ↦ (s.store.lineage id).length)
    (s.tracker.cache.keys.filter s.store.isTracked)

/-- Presents a variable and reports it if its text has changed. A variable that cannot be presented
is passed over. -/
def examine (w : WrapperRegistry) (id : VarId) : TurnM σ (Option Change) := do
  match ← attempt (present w id) with
  | .error _ => return none
  | .ok value =>
    if (← tracker).isNews id value then
      modifyTracker fun t ↦ t.activate id value
      return some ⟨id, value⟩
    else return none

/-- Examines variables in order. -/
def examineAll (w : WrapperRegistry) : List VarId → TurnM σ (List Change)
  | [] => return []
  | id :: ids => do
    let change ← examine w id
    let changes ← examineAll w ids
    return change.toList ++ changes

/-- The changes of all tracked variables. -/
def detect (w : WrapperRegistry) : TurnM σ (List Change) := do
  examineAll w (← get).session.examined

/-- Tells changes to those who watch the variables. -/
def tellChanges : List Change → TurnM σ Unit
  | [] => return
  | change :: changes => do
    sendAll ((← tally).watchers change.id) (.ofValue change.id change.value)
    tellChanges changes

/-- Detects changes and tells them; returns how many there are. -/
def detectChanges (w : WrapperRegistry) : TurnM σ Nat := do
  let changes ← detect w
  tellChanges changes
  return changes.length

/-! ## Messages -/

/-- Does what a message asks for. -/
def obey (w : WrapperRegistry) (observer : Observer) : Message → TurnM σ Unit
  | .create parent value properties id noWatch unbound => do
    let _ ← create w (some observer) ⟨parent, value, properties, id, noWatch, unbound⟩
  | .update id value properties => update w observer id value properties
  | .watch id => do
    if (← store).contains id then watch w observer id true
    else refuse (.unknownVariable id)
  | .unwatch id => unwatch observer id
  | .destroy id => destroy (some observer) id
  | .error .. => return

/-- Handles a message: a refusal is answered. -/
def handle (w : WrapperRegistry) (observer : Observer) (m : Message) : TurnM σ Unit := do
  match ← attempt (obey w observer m) with
  | .ok () => return
  | .error e => send observer e.message

/-- Handles messages in order. -/
def handleAll (w : WrapperRegistry) (observer : Observer) : List Message → TurnM σ Unit
  | [] => return
  | m :: ms => do
    handle w observer m
    handleAll w observer ms

/-- Handles a batch from an observer and detects changes; returns how many there are. -/
def receiveBatch (w : WrapperRegistry) (observer : Observer) (b : Batch) : TurnM σ Nat := do
  handleAll w observer b.ordered
  detectChanges w

end ReactiveVars
