import ReactiveVars.Wire.Tier

/-!
# Queues with tiers

Each tier of a queue is served in the order of arrival, and a sooner tier before a later one.
-/

namespace ReactiveVars

/-- The items that wait in each tier. -/
structure TierQueue (α : Type) where
  high : List α
  medium : List α
  low : List α

namespace TierQueue

variable {α : Type}

/-- The queue in which nothing waits. -/
def empty : TierQueue α := ⟨[], [], []⟩

/-- Adds an item behind the others of its tier. -/
def push (q : TierQueue α) (tier : Tier) (a : α) : TierQueue α :=
  match tier with
  | .high => { q with high := q.high ++ [a] }
  | .medium => { q with medium := q.medium ++ [a] }
  | .low => { q with low := q.low ++ [a] }

/-- The items in the order in which they are served. -/
def toList (q : TierQueue α) : List α := q.high ++ q.medium ++ q.low

/-- The number of items. -/
def size (q : TierQueue α) : Nat := q.high.length + q.medium.length + q.low.length

/-- Whether nothing waits. -/
def isEmpty (q : TierQueue α) : Bool := q.high.isEmpty && q.medium.isEmpty && q.low.isEmpty

/-- Takes out all items in the order in which they are served. -/
def drain (q : TierQueue α) : List α × TierQueue α := (q.toList, empty)

end TierQueue

end ReactiveVars
