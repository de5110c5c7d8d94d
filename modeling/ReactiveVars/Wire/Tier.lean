import ReactiveVars.Order.KeyMap

/-!
# Tiers and properties

Outgoing traffic leaves in three tiers. A property may name its tier by a suffix of its key; the
variable keeps it under the key without the suffix.
-/

namespace ReactiveVars

/-- How soon a message leaves. -/
inductive Tier where
  | high
  | medium
  | low
deriving DecidableEq, Repr

/-- The text properties of a variable. -/
abbrev Properties := KeyMap String String

namespace Tier

/-- The tiers in the order in which they leave. -/
def all : List Tier := [high, medium, low]

/-- The place of a tier among all. -/
def rank : Tier → Nat
  | high => 0
  | medium => 1
  | low => 2

/-- The suffix by which a key names the tier. -/
def suffix : Tier → String
  | high => ":high"
  | medium => ":med"
  | low => ":low"

/-- The sooner of two tiers. -/
def sooner (t t' : Tier) : Tier := if t.rank ≤ t'.rank then t else t'

end Tier

/-- The front of a list that ends in `ending`. -/
def frontBefore? (ending cs : List Char) : Option (List Char) :=
  if ending.isSuffixOf cs then some (cs.take (cs.length - ending.length)) else none

/-- The key without its suffix, and the tier that the suffix names; a key without suffix is of the
medium tier. -/
def splitTier (key : String) : String × Tier :=
  (Tier.all.findSome? fun tier ↦
    (frontBefore? tier.suffix.toList key.toList).map fun base ↦ (String.ofList base, tier)).getD
    (key, .medium)

/-- The part of some properties that is of one tier, under the keys without suffix; the keys are
taken in ascending order, and of two that agree without suffix the later counts. -/
def Properties.ofTier (ps : Properties) (tier : Tier) : Properties :=
  ps.entries.foldl (fun found e ↦
    if (splitTier e.1).2 = tier then found.insert (splitTier e.1).1 e.2 else found) .empty

end ReactiveVars
