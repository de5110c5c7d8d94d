import ReactiveVars.Json.Basic
import ReactiveVars.Path.Segment

/-!
# Paths through JSON values

Only properties and items are looked up in a plain JSON value. Reading goes on through whatever is
there and gives null where nothing is; writing needs every value on the way to be there, and puts
the new one into an object under any name or in place of an item of an array.
-/

namespace ReactiveVars.Document

/-- The value one step into another. -/
def step? : Json → Segment → Option Json
  | .object fields, .property name => Entries.find? name fields
  | .array items, .index (k + 1) => items[k]?
  | _, _ => none

/-- The value at the end of a path, if every step finds one. -/
def find? : Json → List Segment → Option Json
  | root, [] => some root
  | root, segment :: rest => (step? root segment).bind fun next ↦ find? next rest

/-- The value at the end of a path, null if a step finds none. -/
def resolve (root : Json) (segments : List Segment) : Json := (find? root segments).getD .null

/-- Why a value cannot be written. -/
inductive WriteError where
  /-- A property on the way is missing or null. -/
  | nullProperty (name : String)
  /-- An item on the way is missing or null. -/
  | indexOutOfRange (k : Nat)
  /-- A step on the way does not fit its value. -/
  | notTraversable (segment : Segment)
  /-- The last step does not fit its value. -/
  | notAssignable (segment : Segment)
deriving DecidableEq

/-- The wording of a write error. -/
def WriteError.message : WriteError → String
  | nullProperty name => "segment '" ++ name ++ "' is null"
  | indexOutOfRange k => "index " ++ Nat.repr k ++ " is out of range"
  | notTraversable segment => "cannot traverse " ++ segment.describe
  | notAssignable segment => "cannot assign " ++ segment.describe

/-- Puts a value one step into another. -/
def put (root : Json) (segment : Segment) (value : Json) : Except WriteError Json :=
  match root, segment with
  | .object fields, .property name => .ok (.object (Entries.set name value fields))
  | .array items, .index (k + 1) =>
    if k < items.length then .ok (.array (items.set k value))
    else .error (.notAssignable (.index (k + 1)))
  | _, segment => .error (.notAssignable segment)

/-- The value one step on the way, which must not be null. -/
def enter (root : Json) (segment : Segment) : Except WriteError Json :=
  match root, segment with
  | .object _, .property name =>
    match step? root segment with
    | some next => if next.isNull then .error (.nullProperty name) else .ok next
    | none => .error (.nullProperty name)
  | .array _, .index k =>
    match step? root segment with
    | some next => if next.isNull then .error (.indexOutOfRange k) else .ok next
    | none => .error (.indexOutOfRange k)
  | _, segment => .error (.notTraversable segment)

/-- Writes a value at the end of a path; an empty path replaces the whole. -/
def assign (root : Json) : List Segment → Json → Except WriteError Json
  | [], value => .ok value
  | [last], value => put root last value
  | segment :: next :: rest, value => do
    let child ← enter root segment
    let child' ← assign child (next :: rest) value
    put root segment child'

end ReactiveVars.Document
