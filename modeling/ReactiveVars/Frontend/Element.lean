import ReactiveVars.Json.Printer
import ReactiveVars.Wire.Tier

/-!
# Elements and what they declare

An element of a user interface declares by its attributes which data it shows and which events it
reports. It is shown values through calls, which it keeps in order.
-/

namespace ReactiveVars

/-- How a binding may be used. -/
inductive Access where
  | read
  | write
  | readWrite
  | action
deriving DecidableEq

namespace Access

/-- The mode that a text names. -/
def parse? : String → Option Access
  | "r" => some read
  | "w" => some write
  | "rw" => some readWrite
  | "action" => some action
  | _ => none

/-- The name of a mode. -/
def name : Access → String
  | read => "r"
  | write => "w"
  | readWrite => "rw"
  | action => "action"

/-- Whether values are shown. -/
def isReadable : Access → Bool
  | read | readWrite => true
  | write | action => false

/-- Whether values are sent. -/
def isWritable : Access → Bool
  | read => false
  | write | readWrite | action => true

/-- Whether a value is sent only if it differs from the last. -/
def suppressesDuplicates : Access → Bool
  | read | readWrite => true
  | write | action => false

end Access

/-- What of an element is bound. -/
inductive BindingKind where
  | value
  | attr (name : String)
  | cssClass (name : String)
  | style (name : String)
  | event (name : String)
deriving DecidableEq

namespace BindingKind

/-- The rest of a text behind a front that it must have, if there is any. -/
def named? (front name : String) : Option String :=
  if front.toList.isPrefixOf name.toList ∧ front ≠ name then
    some (String.ofList (name.toList.drop front.length))
  else none

/-- What an attribute with a given name binds. -/
def ofAttribute? (name : String) : Option BindingKind :=
  if name = "ui-value" then some value
  else
    ((named? "ui-attr-" name).map attr).or <| ((named? "ui-class-" name).map cssClass).or <|
      ((named? "ui-style-" name).map style).or <| (named? "ui-event-" name).map event

end BindingKind

/-- The tags, in lower case, of elements that a user edits. -/
def interactiveTags : List String := ["input", "textarea", "select"]

/-- Whether an element with a tag is edited by the user, in whatever case its ASCII letters are. -/
def isInteractive (tag : String) : Bool :=
  interactiveTags.contains (String.ofList (tag.toList.map Char.toLower))

/-- The access mode of a binding that does not name one. -/
def Access.default (kind : BindingKind) (tag : String) : Access :=
  match kind with
  | .event _ => action
  | .value => if isInteractive tag then readWrite else read
  | _ => read

/-- A call by which an element is shown something; no text removes an attribute, a style or the
error mark. -/
inductive ElementCall where
  | setValue (v : Json)
  | setAttribute (name : String) (text : Option String)
  | setClass (name : String) (present : Bool)
  | setStyle (name : String) (text : Option String)
  | setError (text : Option String)

/-- An element, with the value it shows at the moment and the calls made to it. -/
structure Element where
  tag : String
  attributes : List (String × String)
  live : Json
  calls : List ElementCall

namespace Element

/-- Makes a call. -/
def call (e : Element) (c : ElementCall) : Element := { e with calls := e.calls ++ [c] }

end Element

/-- The value as a text to show; null and false show none. -/
def Json.display? : Json → Option String
  | .null | .bool false => none
  | .string s => some s
  | v => some v.text

/-- Whether the value counts as true: not null, false, zero or the empty text. -/
def Json.isTruthy : Json → Bool
  | .null => false
  | .bool b => b
  | .int n => n != 0
  | .double d => !d.isZero
  | .string s => !s.isEmpty
  | .array _ | .object _ => true

/-- The call that shows a value through a binding; an event shows nothing. -/
def BindingKind.show? (kind : BindingKind) (v : Json) : Option ElementCall :=
  match kind with
  | .value => some (.setValue v)
  | .attr name => some (.setAttribute name v.display?)
  | .cssClass name => some (.setClass name v.isTruthy)
  | .style name => some (.setStyle name v.display?)
  | .event _ => none

end ReactiveVars
