import ReactiveVars.Frontend.Element
import ReactiveVars.Frontend.LocalStore
import ReactiveVars.Path.Basic

/-!
# Binding elements to variables

Binding an element creates below a context variable one variable for each attribute that declares a
binding, and keeps the context watched as long as the element is bound. Updates from the backend are
shown by the elements; values and events of the elements are sent to the backend. A binding that
fails is undone.
-/

namespace ReactiveVars

/-- A variable bound to a part of an element. -/
structure Binding where
  kind : BindingKind
  id : VarId
  access : Access
deriving DecidableEq

/-- The number of a bound element. -/
abbrev ElementId := Nat

/-- An element that is bound, and the variable whose failure it shows. -/
structure BoundElement where
  element : Element
  /-- The variable that the bound variables are children of. -/
  context : VarId
  /-- The name under which the element watches. -/
  observer : Observer
  /-- The bindings in the order of their declarations. -/
  bindings : List Binding
  /-- The variable whose failure is shown. -/
  failing : Option VarId

namespace BoundElement

/-- The binding of a variable. -/
def binding? (b : BoundElement) (id : VarId) : Option Binding := b.bindings.find? fun c ↦ c.id = id

/-- The binding of the value. -/
def valueBinding? (b : BoundElement) : Option Binding := b.bindings.find? fun c ↦ c.kind = .value

/-- The binding of an event. -/
def eventBinding? (b : BoundElement) (event : String) : Option Binding :=
  b.bindings.find? fun c ↦ c.kind = .event event

/-- Makes a call to the element. -/
def call (b : BoundElement) (c : ElementCall) : BoundElement :=
  { b with element := b.element.call c }

end BoundElement

/-- The variables of a frontend, the elements bound to them, and the element of each bound variable.
-/
structure BindingEngine where
  store : LocalStore
  elements : KeyMap ElementId BoundElement
  byVariable : KeyMap VarId ElementId
  nextElement : ElementId

namespace BindingEngine

/-- The engine without elements. -/
def new (store : LocalStore) : BindingEngine := ⟨store, .empty, .empty, 1⟩

/-! ## Binding -/

/-- The name under which an element watches. -/
def observerOf (id : ElementId) : Observer := "element-" ++ Nat.repr id

/-- The access mode that a path asks for, or else the usual one. -/
def accessOf (context : VarId) (path : Path) (kind : BindingKind) (tag : String) :
    Except SyncError Access :=
  match path.paramText? accessProperty with
  | none => .ok (.default kind tag)
  | some name =>
    match Access.parse? name with
    | some access => .ok access
    | none => .error (.badRequest context ("unknown access mode '" ++ name ++ "'"))

/-- The properties of the variable for a binding. -/
def bindingProperties (path : Path) (access : Access) : Properties :=
  (path.properties.insert pathProperty path.base).insert accessProperty access.name

/-- The path that a declaration names. -/
def declaredPath (context : VarId) (raw : String) : Except SyncError Path :=
  match Path.parse raw with
  | .ok path => .ok path
  | .error e => .error (.badRequest context ("binding path '" ++ raw ++ "': " ++ e.message))

/-- Creates the variable for one declaration. -/
def createBinding (l : LocalStore) (now : Nat) (context : VarId) (kind : BindingKind)
    (raw tag : String) (observer : Observer) : Except SyncError Binding × LocalStore :=
  match declaredPath context raw with
  | .error e => (.error e, l)
  | .ok path =>
    match accessOf context path kind tag with
    | .error e => (.error e, l)
    | .ok access =>
      let watcher := if access.isReadable then some observer else none
      match l.create now context none (bindingProperties path access) watcher false with
      | (.ok id, l') => (.ok ⟨kind, id, access⟩, l')
      | (.error e, l') => (.error e, l')

/-- Creates the variables for declarations in order, until one fails. Returns the bindings made, and
the error if there is one. -/
def createBindings (l : LocalStore) (now : Nat) (context : VarId) (tag : String)
    (observer : Observer) : List (String × String) → List Binding × Option SyncError × LocalStore
  | [] => ([], none, l)
  | (name, raw) :: rest =>
    match BindingKind.ofAttribute? name with
    | none => createBindings l now context tag observer rest
    | some kind =>
      match createBinding l now context kind raw tag observer with
      | (.error e, l') => ([], some e, l')
      | (.ok b, l') =>
        let (bs, error, l'') := createBindings l' now context tag observer rest
        (b :: bs, error, l'')

/-- Destroys the variables of bindings in order. -/
def destroyBindings (l : LocalStore) (now : Nat) (bs : List Binding) : LocalStore :=
  bs.foldl (fun l b ↦ (l.destroy now b.id).2) l

/-- Binds an element below a context variable. -/
def bind (g : BindingEngine) (now : Nat) (context : VarId) (e : Element) :
    Except SyncError ElementId × BindingEngine :=
  let id := g.nextElement
  let observer := observerOf id
  let g := { g with nextElement := id + 1 }
  match g.store.watch now context observer with
  | .error error => (.error error, g)
  | .ok (_, watched) =>
    match createBindings watched now context e.tag observer e.attributes with
    | (bs, some error, l) =>
      (.error error, { g with store := (destroyBindings l now bs).unwatch now context observer })
    | (bs, none, l) =>
      (.ok id,
        { g with
          store := l
          elements := g.elements.insert id ⟨e, context, observer, bs, none⟩
          byVariable := bs.foldl (fun m b ↦ m.insert b.id id) g.byVariable })

/-- Ends the binding of an element and returns the element. -/
def unbind (g : BindingEngine) (now : Nat) (id : ElementId) : Option Element × BindingEngine :=
  match g.elements.get? id with
  | none => (none, g)
  | some b =>
    (some b.element,
      { g with
        store := (destroyBindings g.store now b.bindings).unwatch now b.context b.observer
        elements := g.elements.erase id
        byVariable := b.bindings.foldl (fun m c ↦ m.erase c.id) g.byVariable })

/-! ## Showing -/

/-- Changes the element of a variable, if it has one. -/
def modifyElementOf (g : BindingEngine) (id : VarId) (f : BoundElement → BoundElement) :
    BindingEngine :=
  match g.byVariable.get? id with
  | some element => { g with elements := g.elements.modify element f }
  | none => g

/-- Takes away the error mark if it stands for a variable. -/
def clearError (b : BoundElement) (id : VarId) : BoundElement :=
  if b.failing = some id then { b with failing := none }.call (.setError none) else b

/-- Shows a value on an element through the binding of a variable. -/
def showOn (v : Json) (id : VarId) (b : BoundElement) : BoundElement :=
  match b.binding? id with
  | none => b
  | some c =>
    let b := clearError b id
    if c.access.isReadable then
      match c.kind.show? v with
      | some call => b.call call
      | none => b
    else b

/-- Shows the value of a variable. -/
def render (g : BindingEngine) (id : VarId) : BindingEngine :=
  g.modifyElementOf id (showOn ((g.store.value? id).getD .null) id)

/-- Marks the element of a variable with an error. -/
def markError (g : BindingEngine) (id : VarId) (description : String) : BindingEngine :=
  g.modifyElementOf id fun b ↦ { b with failing := some id }.call (.setError (some description))

/-- Ends the binding of a variable that is gone. -/
def forgetBinding (g : BindingEngine) (id : VarId) : BindingEngine :=
  { g.modifyElementOf id fun b ↦ { b with bindings := b.bindings.filter fun c ↦ c.id ≠ id } with
    byVariable := g.byVariable.erase id }

/-- Shows what a batch from the backend did. -/
def showEvent (g : BindingEngine) : Inbound → BindingEngine
  | .updated id => g.render id
  | .failed id (some "path-failure") description => g.markError id description
  | .destroyed id => g.forgetBinding id
  | _ => g

/-- Applies a batch from the backend and shows what it did. -/
def receive (g : BindingEngine) (b : Batch) : List Inbound × BindingEngine :=
  let (events, store) := g.store.apply b
  (events, events.foldl showEvent { g with store := store })

/-! ## Sending -/

/-- Sends a value through a binding, if its mode allows; tells whether it was sent. -/
def send (g : BindingEngine) (now : Nat) (b : Binding) (v : Json) :
    Except SyncError Bool × BindingEngine :=
  if !b.access.isWritable then (.ok false, g)
  else if b.access.suppressesDuplicates && g.store.value? b.id == some v then (.ok false, g)
  else
    match g.store.update now b.id (some v) .empty with
    | .ok store => (.ok true, { g with store := store })
    | .error e => (.error e, g)

/-- Sends a value of an element. -/
def writeValue (g : BindingEngine) (now : Nat) (id : ElementId) (v : Json) :
    Except SyncError Bool × BindingEngine :=
  match (g.elements.get? id).bind BoundElement.valueBinding? with
  | some b => g.send now b v
  | none => (.ok false, g)

/-- Sends what waits as a user event. -/
def flushUserEvent (g : BindingEngine) : BindingEngine := { g with store := g.store.flushUserEvent }

/-- Sends the live value of an element as a user event. -/
def input (g : BindingEngine) (now : Nat) (id : ElementId) :
    Except SyncError Bool × BindingEngine :=
  match g.elements.get? id with
  | none => (.ok false, g)
  | some b =>
    match g.writeValue now id b.element.live with
    | (.ok true, g') => (.ok true, g'.flushUserEvent)
    | other => other

/-- The value binding of an element whose live value has not been sent. -/
def unsentValue? (g : BindingEngine) (b : BoundElement) : Option Binding :=
  b.valueBinding?.filter fun c ↦ g.store.value? c.id != some b.element.live

/-- Sends the live value of an element if it has not been sent. -/
def sendUnsent (g : BindingEngine) (now : Nat) (b : BoundElement) :
    Except SyncError Bool × BindingEngine :=
  match g.unsentValue? b with
  | some c => g.send now c b.element.live
  | none => (.ok false, g)

/-- Reports an event of an element as a user event, behind the live value if that has not been sent.
-/
def trigger (g : BindingEngine) (now : Nat) (id : ElementId) (event : String) (payload : Json) :
    Except SyncError Bool × BindingEngine :=
  match g.elements.get? id with
  | none => (.ok false, g)
  | some b =>
    match b.eventBinding? event with
    | none => (.ok false, g)
    | some c =>
      match g.sendUnsent now b with
      | (.error e, g') => (.error e, g')
      | (.ok _, g') =>
        match g'.send now c payload with
        | (.error e, g'') => (.error e, g'')
        | (.ok _, g'') => (.ok true, g''.flushUserEvent)

end BindingEngine

end ReactiveVars
