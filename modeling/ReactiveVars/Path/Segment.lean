import ReactiveVars.Text.Quoted

/-!
# Segments of paths

One step of a path: into a named property, to a numbered item (counted from one), through a method,
back to where the previous step started, or to an object that the application names.
-/

namespace ReactiveVars

/-- One step of a path. -/
inductive Segment where
  | property (name : String)
  | index (k : Nat)
  | method (name : String)
  | parent
  | standard (name : String)
deriving DecidableEq

namespace Segment

/-- The segment as diagnostics name it. -/
def describe : Segment → String
  | property name => "Property(" ++ Quoted.quote name ++ ")"
  | index k => "Index(" ++ Nat.repr k ++ ")"
  | method name => "Method(" ++ Quoted.quote name ++ ")"
  | parent => "Parent"
  | standard name => "Standard(" ++ Quoted.quote name ++ ")"

/-- Whether the step looks something up in a value, without calling or leaving it. -/
def isLookup : Segment → Bool
  | property _ | index _ => true
  | _ => false

/-- Whether the step calls a method. -/
def isMethod : Segment → Bool
  | method _ => true
  | _ => false

end Segment

end ReactiveVars
