import ReactiveVars.SyncError
import ReactiveVars.Variable.IdSource

/-!
# Stores of variables

A store holds its variables in the order of their insertion, the latest first. A parent is older
than its children, so the ancestors of a variable are found going on towards the older ones, and its
descendants going on towards the newer ones.
-/

namespace ReactiveVars

/-- What a new variable starts with. -/
structure NewVariable where
  id : Option VarId
  parent : VarId
  value : Json
  properties : Properties
  unbound : Bool

/-- Variables, the latest first, and the source of new numbers. -/
structure Store where
  /-- The variables, the latest first. -/
  entries : List Variable
  ids : IdSource

namespace Store

/-- A store without variables. -/
def withIds (ids : IdSource) : Store := ⟨[], ids⟩

/-- The empty store of a backend. -/
def empty : Store := withIds .backend

instance : Inhabited Store := ⟨empty⟩

/-! ## Looking up -/

/-- The variable with a number. -/
def get? (s : Store) (id : VarId) : Option Variable := s.entries.find? fun v ↦ v.id = id

/-- Whether there is a variable with a number. -/
def contains (s : Store) (id : VarId) : Bool := (s.get? id).isSome

/-- A variable and its ancestors, itself first, among variables of which the latest is first. -/
def lineageIn (id : VarId) : List Variable → List Variable
  | [] => []
  | v :: older => if v.id = id then v :: lineageIn v.parent older else lineageIn id older

/-- A variable and its ancestors, itself first. -/
def lineage (s : Store) (id : VarId) : List Variable := lineageIn id s.entries

/-- The children of a variable in the order of their insertion. -/
def children (s : Store) (id : VarId) : List VarId :=
  if id = noParent then []
  else (s.entries.reverse.filter fun v ↦ v.parent = id).map Variable.id

/-- Whether a variable and all its ancestors are active and none is suspended. -/
def isTracked (s : Store) (id : VarId) : Bool :=
  s.contains id && (s.lineage id).all fun v ↦ v.active && !v.isSuspended

/-- Whether a variable or one of its ancestors is suspended. -/
def isSuspended (s : Store) (id : VarId) : Bool := (s.lineage id).any Variable.isSuspended

/-- The number of variables. -/
def size (s : Store) : Nat := s.entries.length

/-- The numbers in use, ascending. -/
def idList (s : Store) : List VarId := (s.entries.map Variable.id).mergeSort

/-! ## Changing -/

/-- Gives out a new number. -/
def vend (s : Store) : VarId × Store := (s.ids.vend.1, { s with ids := s.ids.vend.2 })

/-- Checks that a variable can be inserted. -/
def checkNew (s : Store) (id parent : VarId) : Except SyncError Unit :=
  if id = noParent ∨ s.contains id then .error (.duplicateId id)
  else if parent ≠ noParent ∧ ¬ s.contains parent then .error (.unknownParent id parent)
  else .ok ()

/-- Inserts a variable with a number that is free. -/
def insertAs (s : Store) (id : VarId) (new : NewVariable) : Except SyncError Store :=
  (s.checkNew id new.parent).map fun _ ↦
    { entries := ⟨id, new.parent, new.value, new.properties.apply .empty, new.unbound, false⟩
        :: s.entries
      ids := s.ids.observe id }

/-- Inserts a variable. A number is given out before it is checked, so it is spent even if the
variable is refused. -/
def insert (s : Store) (new : NewVariable) : Except SyncError VarId × Store :=
  let (id, s) := match new.id with
    | some id => (id, s)
    | none => s.vend
  match s.insertAs id new with
  | .ok s' => (.ok id, s')
  | .error e => (.error e, s)

/-- Changes the variable with a number by a function. -/
def modify (s : Store) (id : VarId) (f : Variable → Variable) : Store :=
  { s with entries := s.entries.map fun v ↦ if v.id = id then f v else v }

/-- Sets the value, if one is given, and properties of a variable. -/
def update (s : Store) (id : VarId) (value : Option Json) (ps : Properties) :
    Except SyncError Store :=
  if s.contains id then .ok (s.modify id fun v ↦ v.update value ps)
  else .error (.unknownVariable id)

/-- Switches a variable on or off. -/
def setActive (s : Store) (id : VarId) (active : Bool) : Store :=
  s.modify id fun v ↦ { v with active := active }

/-- The descendants of a variable among variables of which the oldest is first: each behind its own
descendants, and the later sibling first. -/
def below (id : VarId) : List Variable → List VarId
  | [] => []
  | v :: newer =>
    if v.parent = id then below id newer ++ (below v.id newer ++ [v.id]) else below id newer

/-- Removes a variable and its descendants; returns their numbers in the order of removal. -/
def destroy (s : Store) (id : VarId) : List VarId × Store :=
  if s.contains id then
    let removed := below id s.entries.reverse ++ [id]
    (removed, { s with entries := s.entries.filter fun v ↦ v.id ∉ removed })
  else ([], s)

end Store

end ReactiveVars
