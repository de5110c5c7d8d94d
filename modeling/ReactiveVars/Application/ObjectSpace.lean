import ReactiveVars.Application.Basic
import ReactiveVars.Path.Document

/-!
# Spaces of numbered objects

An object space is an application whose objects are JSON values, numbered from one in the order in
which they come into being; none ever goes. A value inside an object may refer to another object.
Types and methods are functions, and some objects have a name of their own.

Reading follows references and keeps the values it came through, so that a parent segment goes back;
it ends with null as soon as a step yields null. Writing changes one object, at the place named by
the segments after the last reference on the way.
-/

namespace ReactiveVars

/-- A method: from the receiver and the argument to the receiver afterwards and the result, or
nothing if it gives up. -/
abbrev Method := Json → Json → Option (Json × Json)

/-- A space of numbered objects. -/
structure ObjectSpace where
  /-- The values of the objects in the order of their numbers. -/
  objects : List Json
  root : Option ObjectRef
  /-- The value of a new object of each type, shaped by properties. -/
  types : KeyMap String (Properties → Json)
  methods : KeyMap String Method
  /-- The objects that have a name of their own. -/
  standard : KeyMap String ObjectRef

namespace ObjectSpace

/-- The space without objects, types, methods and names. -/
def empty : ObjectSpace := ⟨[], none, .empty, .empty, .empty⟩

/-! ## Objects -/

/-- The place of an object among all. -/
def place? (r : ObjectRef) : Option Nat :=
  if 1 ≤ r.number then some (r.number - 1).toNat else none

/-- The value of an object. -/
def object? (a : ObjectSpace) (r : ObjectRef) : Option Json :=
  (place? r).bind fun k ↦ a.objects[k]?

/-- Replaces the value of an object. -/
def setObject (a : ObjectSpace) (r : ObjectRef) (v : Json) : ObjectSpace :=
  match place? r with
  | some k => { a with objects := a.objects.set k v }
  | none => a

/-- Adds an object. -/
def insert (a : ObjectSpace) (v : Json) : ObjectRef × ObjectSpace :=
  (⟨a.objects.length + 1⟩, { a with objects := a.objects ++ [v] })

/-- Adds an object and makes it the root. -/
def setRoot (a : ObjectSpace) (v : Json) : ObjectRef × ObjectSpace :=
  let (r, a') := a.insert v
  (r, { a' with root := some r })

/-- Makes a type known. -/
def registerType (a : ObjectSpace) (name : String) (factory : Properties → Json) : ObjectSpace :=
  { a with types := a.types.insert name factory }

/-- Makes a method known. -/
def registerMethod (a : ObjectSpace) (name : String) (method : Method) : ObjectSpace :=
  { a with methods := a.methods.insert name method }

/-- Gives an object a name. -/
def registerStandard (a : ObjectSpace) (name : String) (r : ObjectRef) : ObjectSpace :=
  { a with standard := a.standard.insert name r }

/-- A value, or the object that it refers to; null if that does not exist. -/
def follow (a : ObjectSpace) (raw : Json) : Json :=
  match ObjectRef.ofJson? raw with
  | some r => (a.object? r).getD .null
  | none => raw

/-! ## Methods and types -/

/-- The failure for a missing object. -/
def goneMessage (r : ObjectRef) : String := "object " ++ Int.repr r.number ++ " is gone"

/-- Calls a method on a value; a method called on a reference may change the object. -/
def call (a : ObjectSpace) (name : String) (target arg : Json) : Reply Json × ObjectSpace :=
  match a.methods.get? name with
  | none => (.failed ("unknown method '" ++ name ++ "'"), a)
  | some method =>
    match ObjectRef.ofJson? target with
    | some r =>
      match a.object? r with
      | none => (.failed (goneMessage r), a)
      | some receiver =>
        match method receiver arg with
        | some (receiver', result) => (.ok result, a.setObject r receiver')
        | none => (.crashed, a)
    | none =>
      match method target arg with
      | some (_, result) => (.ok result, a)
      | none => (.crashed, a)

/-- Adds an object of a named type. -/
def instantiate (a : ObjectSpace) (typeName : String) (ps : Properties) :
    Reply ObjectRef × ObjectSpace :=
  match a.types.get? typeName with
  | some factory =>
    let (r, a') := a.insert (factory ps)
    (.ok r, a')
  | none => (.failed ("unknown type '" ++ typeName ++ "'"), a)

/-! ## Reading -/

/-- What one step other than a step back yields. -/
def stepFrom (a : ObjectSpace) (raw : Json) : Segment → Reply Json × ObjectSpace
  | .method name => a.call name raw .null
  | .standard name => (.ok (((a.standard.get? name).map ObjectRef.json).getD .null), a)
  | segment => (.ok ((Document.step? (a.follow raw) segment).getD .null), a)

/-- Reads along a path from a value, with the values passed through so far, latest first, in
`trail`. -/
def resolveFrom (a : ObjectSpace) (trail : List Json) (raw : Json) :
    List Segment → Reply Json × ObjectSpace
  | [] => (.ok raw, a)
  | .parent :: rest =>
    match trail with
    | [] => resolveFrom a [] .null rest
    | previous :: trail' => resolveFrom a trail' previous rest
  | segment :: rest =>
    match a.stepFrom raw segment with
    | (.ok next, a') =>
      if next.isNull then (.ok .null, a') else resolveFrom a' (raw :: trail) next rest
    | (.failed reason, a') => (.failed reason, a')
    | (.crashed, a') => (.crashed, a')

/-- Reads along a path from an object. -/
def resolve (a : ObjectSpace) (r : ObjectRef) (segments : List Segment) :
    Reply Json × ObjectSpace :=
  a.resolveFrom [] r.json segments

/-! ## Writing -/

/-- Where a write has got to: the object that is changed, the segments inside it, latest first, and
the value there. -/
structure Cursor where
  anchor : ObjectRef
  /-- The segments from the object to the value, latest first. -/
  inside : List Segment
  /-- The value that has been reached. -/
  current : Json

/-- What a lookup on the way yields, which must not be null. -/
def passThrough (c : Cursor) (segment : Segment) (missing : String) : Reply Json :=
  match Document.step? c.current segment with
  | some next => if next.isNull then .failed missing else .ok next
  | none => .failed missing

/-- What one step on the way to the place of a write yields. -/
def stepTowards (a : ObjectSpace) (c : Cursor) : Segment → Reply Json × ObjectSpace
  | .property name => (passThrough c (.property name) ("segment '" ++ name ++ "' is null"), a)
  | .index k => (passThrough c (.index k) ("index " ++ Nat.repr k ++ " is null"), a)
  | .standard name =>
    match a.standard.get? name with
    | some r => (.ok r.json, a)
    | none => (.failed ("unknown standard '@" ++ name ++ "'"), a)
  | .method name =>
    if c.inside.isEmpty then a.call name c.anchor.json .null
    else (.failed ("cannot write through " ++ (Segment.method name).describe), a)
  | .parent => (.failed ("cannot write through " ++ Segment.parent.describe), a)

/-- Moves the cursor to what a step has yielded. -/
def moveTo (a : ObjectSpace) (c : Cursor) (segment : Segment) (next : Json) :
    Except String Cursor :=
  match ObjectRef.ofJson? next with
  | some r => .ok ⟨r, [], a.follow next⟩
  | none =>
    if segment.isLookup then .ok ⟨c.anchor, segment :: c.inside, next⟩
    else .error (segment.describe ++ " did not yield an object")

/-- Writes at the last segment. -/
def finishWrite (a : ObjectSpace) (c : Cursor) (last : Segment) (value : Json) :
    Reply Unit × ObjectSpace :=
  match last with
  | .method name =>
    if c.inside.isEmpty then
      match a.call name c.anchor.json value with
      | (.ok _, a') => (.ok (), a')
      | (.failed reason, a') => (.failed reason, a')
      | (.crashed, a') => (.crashed, a')
    else (.failed ("method '" ++ name ++ "' needs an object receiver"), a)
  | last =>
    match a.object? c.anchor with
    | none => (.failed (goneMessage c.anchor), a)
    | some object =>
      match Document.assign object (c.inside.reverse ++ [last]) value with
      | .ok object' => (.ok (), a.setObject c.anchor object')
      | .error e => (.failed e.message, a)

/-- Writes along a path from where a cursor is. -/
def writeFrom (a : ObjectSpace) (c : Cursor) : List Segment → Json → Reply Unit × ObjectSpace
  | [], _ => (.failed "cannot write an empty path", a)
  | [last], value => a.finishWrite c last value
  | segment :: next :: rest, value =>
    match a.stepTowards c segment with
    | (.ok found, a') =>
      match a'.moveTo c segment found with
      | .ok c' => writeFrom a' c' (next :: rest) value
      | .error reason => (.failed reason, a')
    | (.failed reason, a') => (.failed reason, a')
    | (.crashed, a') => (.crashed, a')

/-- Writes along a path from an object; a method at the end is called with the value. -/
def write (a : ObjectSpace) (r : ObjectRef) (segments : List Segment) (value : Json) :
    Reply Unit × ObjectSpace :=
  a.writeFrom ⟨r, [], a.follow r.json⟩ segments value

end ObjectSpace

instance : Application ObjectSpace where
  root := ObjectSpace.root
  instantiate := ObjectSpace.instantiate
  resolve := ObjectSpace.resolve
  write := ObjectSpace.write

end ReactiveVars
