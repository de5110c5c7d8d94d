import ReactiveVars.Variable.Basic

/-!
# Wrappers

A wrapper presents the value of a variable in another form, which the properties of the variable may
shape. A variable names its wrapper; a name that is not known presents the value as it is.
-/

namespace ReactiveVars

/-- A way to present a value. -/
abbrev Transform := Json → Properties → Json

namespace Transform

/-- One row of a list: its number, its item and the type of the items if there is one. -/
def listRow (itemType : Option String) (index : Nat) (item : Json) : Json :=
  .object ([("index", .int (index + 1)), ("item", item)]
    ++ (itemType.map fun t ↦ ("type", Json.string t)).toList)

/-- Presents an array as numbered rows and any other value as no rows; the property `item` names the
type of the items. -/
def viewList : Transform := fun raw ps ↦
  match raw with
  | .array items => .array (items.mapIdx (listRow (ps.get? "item")))
  | _ => .array []

/-- Presents a text with its ASCII letters in upper case and any other value as null. -/
def upper : Transform := fun raw _ ↦
  match raw with
  | .string s => .string (String.ofList (s.toList.map Char.toUpper))
  | _ => .null

end Transform

/-- The known wrappers by name. -/
structure WrapperRegistry where
  wrappers : KeyMap String Transform

namespace WrapperRegistry

/-- The registry that knows the list view alone. -/
def standard : WrapperRegistry := ⟨KeyMap.empty.insert "ViewList" Transform.viewList⟩

/-- Makes a wrapper known under a name. -/
def register (r : WrapperRegistry) (name : String) (transform : Transform) : WrapperRegistry :=
  ⟨r.wrappers.insert name transform⟩

/-- Presents a value through the named wrapper, if one is named and known. -/
def present (r : WrapperRegistry) (name : Option String) (raw : Json) (ps : Properties) : Json :=
  match name.bind r.wrappers.get? with
  | some transform => transform raw ps
  | none => raw

end WrapperRegistry

end ReactiveVars
