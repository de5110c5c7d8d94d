import ReactiveVars.Wire.Message

/-!
# Variables

A variable has a value and text properties, and hangs below another variable or below none. Some
properties have a meaning of their own: the path to the data it shows, the wrapper that presents it,
the type of object it is created with, and whether it is suspended.
-/

namespace ReactiveVars

/-- The variable that shows the root of the application. -/
def rootId : VarId := 1

/-- Stands for the parent of a variable that has none; no variable has this number. -/
def noParent : VarId := 0

/-- The property that holds the path of a variable. -/
def pathProperty : String := "path"

/-- The property that names the type of object to create a variable with. -/
def createProperty : String := "create"

/-- The property that names the wrapper that presents a variable. -/
def wrapperProperty : String := "wrapper"

/-- The property that suspends a variable, whatever its value. -/
def inactiveProperty : String := "inactive"

/-- The property that holds the access mode of a binding. -/
def accessProperty : String := "access"

/-- A reference to an object of the application. -/
structure ObjectRef where
  number : Int
deriving DecidableEq

namespace ObjectRef

/-- The reference as a value: an object with the single field `obj`. -/
def json (r : ObjectRef) : Json := .object [("obj", .int r.number)]

/-- The reference that a value is, if it is one. No object has the number zero. -/
def ofJson? : Json → Option ObjectRef
  | .object [("obj", v)] => (v.signed?.filter (· ≠ 0)).map ObjectRef.mk
  | _ => none

end ObjectRef

/-- A variable. -/
structure Variable where
  id : VarId
  /-- The variable above, or `noParent`. -/
  parent : VarId
  value : Json
  properties : Properties
  /-- Whether the variable stays with the side that made it. -/
  unbound : Bool
  /-- Whether somebody watches the variable, so that its changes count. -/
  active : Bool

/-- Sets the properties of one tier: an empty text removes a property. -/
def Properties.applyTier (new : Properties) (tier : Tier) (ps : Properties) : Properties :=
  new.entries.foldl (fun ps e ↦
    if (splitTier e.1).2 = tier then
      if e.2.isEmpty then ps.erase (splitTier e.1).1 else ps.insert (splitTier e.1).1 e.2
    else ps) ps

/-- Sets properties tier by tier, so of one property the latest tier counts. -/
def Properties.apply (new ps : Properties) : Properties :=
  Tier.all.foldl (fun ps tier ↦ new.applyTier tier ps) ps

namespace Variable

/-- A variable without value and properties. -/
def new (id parent : VarId) : Variable := ⟨id, parent, .null, .empty, false, false⟩

/-- Sets properties of the variable. -/
def applyProperties (v : Variable) (ps : Properties) : Variable :=
  { v with properties := ps.apply v.properties }

/-- Sets the value, if one is given, and properties. -/
def update (v : Variable) (value : Option Json) (ps : Properties) : Variable :=
  { v with value := value.getD v.value }.applyProperties ps

/-- The path of the variable. -/
def path? (v : Variable) : Option String := v.properties.get? pathProperty

/-- The name of its wrapper. -/
def wrapper? (v : Variable) : Option String := v.properties.get? wrapperProperty

/-- Whether the variable is suspended itself. -/
def isSuspended (v : Variable) : Bool := v.properties.contains inactiveProperty

/-- The object that the value refers to. -/
def objectRef? (v : Variable) : Option ObjectRef := ObjectRef.ofJson? v.value

end Variable

end ReactiveVars
