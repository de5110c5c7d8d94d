import ReactiveVars.Order.KeyMap
import ReactiveVars.Json.Printer
import ReactiveVars.Wire.Message

/-!
# Tracking presented values

For each variable that is tracked the tracker keeps the text of the value that its watchers were
last told, so that a change shows as a different text.
-/

namespace ReactiveVars

/-- The text last told for each tracked variable. -/
structure Tracker where
  cache : KeyMap VarId String

namespace Tracker

/-- The tracker that tracks nothing. -/
def empty : Tracker := ⟨.empty⟩

/-- Starts tracking a variable. -/
def activate (t : Tracker) (id : VarId) (presented : Json) : Tracker :=
  ⟨t.cache.insert id presented.text⟩

/-- Stops tracking a variable. -/
def deactivate (t : Tracker) (id : VarId) : Tracker := ⟨t.cache.erase id⟩

/-- Takes note of a value that the watchers of a tracked variable are told. -/
def remember (t : Tracker) (id : VarId) (presented : Json) : Tracker :=
  ⟨t.cache.modify id fun _ ↦ presented.text⟩

/-- Whether a variable is tracked. -/
def isTracking (t : Tracker) (id : VarId) : Bool := t.cache.contains id

/-- Whether a value shows as a change. -/
def isNews (t : Tracker) (id : VarId) (presented : Json) : Bool :=
  decide (t.cache.get? id ≠ some presented.text)

end Tracker

end ReactiveVars
