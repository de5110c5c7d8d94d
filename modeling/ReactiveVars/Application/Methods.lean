import ReactiveVars.Application.ObjectSpace

/-!
# Ready-made methods

Methods that an object space can be given by name. A method that sets a field changes only an
object, or null, which becomes one; it leaves any other receiver as it is.
-/

namespace ReactiveVars.Method

/-- The receiver with a field set; only an object, or null, has fields to set. -/
def setField? (receiver : Json) (name : String) (v : Json) : Option Json :=
  match receiver with
  | .object fields => some (.object (Entries.insert name v fields))
  | .null => some (.object [(name, v)])
  | _ => none

/-- The signed integer of 64 bits after another, which comes round at the end. -/
def successor (n : Int) : Int := if n = Json.maxSigned then Json.minSigned else n + 1

/-- The count that a receiver holds, zero if it holds none. -/
def countOf (receiver : Json) : Int := ((receiver.field? "count").bind Json.signed?).getD 0

/-- Counts one further and returns the count. -/
def increment : Method := fun receiver _ ↦
  let n := Json.int (successor (countOf receiver))
  some ((setField? receiver "count" n).getD receiver, n)

/-- Keeps the argument as what is selected and returns it. -/
def select : Method := fun receiver arg ↦
  some ((setField? receiver "selected" arg).getD receiver, arg)

/-- Returns the argument. -/
def echo : Method := fun receiver arg ↦ some (receiver, arg)

/-- Returns the receiver. -/
def me : Method := fun receiver _ ↦ some (receiver, receiver)

/-- Returns the field `next`. -/
def link : Method := fun receiver _ ↦ some (receiver, (receiver.field? "next").getD .null)

/-- Becomes the argument and returns what it was. -/
def replace : Method := fun receiver arg ↦ some (arg, receiver)

/-- Gives up. -/
def boom : Method := fun _ _ ↦ none

/-- The ready-made methods by name. -/
def named? : String → Option Method
  | "increment" => some increment
  | "select" => some select
  | "echo" => some echo
  | "me" => some me
  | "link" => some link
  | "replace" => some replace
  | "boom" => some boom
  | _ => none

end ReactiveVars.Method
