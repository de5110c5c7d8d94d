import ReactiveVars.Variable.Basic

/-!
# Sources of numbers

The two sides give out numbers of variables from ranges that do not meet: the backend counts down
from minus one, a frontend counts up from above the root. A source that sees a number of its own
range used goes on behind it.

Sources count without bound. Where a number has 64 bits, the two ranges end at its least and its
greatest value, and whoever counts on or notes one of these as used overflows; what is said of a
source here is said of sessions that stay clear of the ends.
-/

namespace ReactiveVars

/-- A source of numbers. -/
structure IdSource where
  /-- The number that is given out next. -/
  next : VarId
  /-- Whether numbers go up. -/
  ascending : Bool
deriving DecidableEq

namespace IdSource

/-- The numbers of the backend. -/
def backend : IdSource := ⟨-1, false⟩

/-- The numbers of a frontend from a given one on, above the root. -/
def frontendFrom (start : VarId) : IdSource := ⟨max start (rootId + 1), true⟩

/-- The numbers of a frontend. -/
def frontend : IdSource := frontendFrom (rootId + 1)

/-- Gives out a number; there always is a next one. -/
def vend (s : IdSource) : VarId × IdSource :=
  (s.next, { s with next := if s.ascending then s.next + 1 else s.next - 1 })

/-- Takes note of a number that is in use. -/
def observe (s : IdSource) (id : VarId) : IdSource :=
  if s.ascending then if s.next ≤ id then { s with next := id + 1 } else s
  else if id ≤ s.next then { s with next := id - 1 } else s

end IdSource

end ReactiveVars
