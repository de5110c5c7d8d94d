import ReactiveVars.Order.Entries
import ReactiveVars.Decimal.Double

/-!
# JSON values

A JSON value tells integers and doubles apart, and the fields of an object are entries in the order
of their names. Two values are *the same* if they differ at most in the sign of a zero.
-/

namespace ReactiveVars

/-- A JSON value. -/
inductive Json where
  | null
  | bool (b : Bool)
  | int (n : Int)
  | double (d : Double)
  | string (s : String)
  | array (items : List Json)
  | object (fields : List (String × Json))

namespace Json

instance : Inhabited Json := ⟨null⟩

mutual

/-- Whether two values differ at most in the sign of a zero. -/
def same : Json → Json → Bool
  | null, null => true
  | bool b, bool b' => b == b'
  | int n, int n' => decide (n = n')
  | double d, double d' => d.same d'
  | string s, string s' => decide (s = s')
  | array items, array items' => sameItems items items'
  | object fields, object fields' => sameFields fields fields'
  | _, _ => false

/-- Whether two lists hold the same values in order. -/
def sameItems : List Json → List Json → Bool
  | [], [] => true
  | v :: vs, v' :: vs' => same v v' && sameItems vs vs'
  | _, _ => false

/-- Whether two lists hold the same names with the same values in order. -/
def sameFields : List (String × Json) → List (String × Json) → Bool
  | [], [] => true
  | (k, v) :: es, (k', v') :: es' => decide (k = k') && same v v' && sameFields es es'
  | _, _ => false

end

instance : BEq Json := ⟨same⟩

/-- The least and the greatest signed integer of 64 bits. -/
def minSigned : Int := -0x8000000000000000

@[inherit_doc minSigned] def maxSigned : Int := 0x7FFFFFFFFFFFFFFF

/-- The value as a signed integer of 64 bits. -/
def signed? : Json → Option Int
  | int n => if minSigned ≤ n ∧ n ≤ maxSigned then some n else none
  | _ => none

/-- The value as a text. -/
def string? : Json → Option String
  | string s => some s
  | _ => none

/-- The value as a truth value. -/
def bool? : Json → Option Bool
  | bool b => some b
  | _ => none

/-- The value as a list of items. -/
def items? : Json → Option (List Json)
  | array items => some items
  | _ => none

/-- The value as a list of fields. -/
def fields? : Json → Option (List (String × Json))
  | object fields => some fields
  | _ => none

/-- The value of a field of an object. -/
def field? (v : Json) (name : String) : Option Json := v.fields?.bind (Entries.find? name)

/-- The object with the given fields; of two with one name the later counts. -/
def ofFields (fields : List (String × Json)) : Json :=
  object (fields.foldl (fun es e ↦ Entries.insert e.1 e.2 es) [])

/-- Whether the value is null. -/
def isNull : Json → Bool
  | null => true
  | _ => false

mutual

/-- Integers fit into 64 bits and the fields of objects ascend, at any depth. -/
def WellFormed : Json → Prop
  | int n => minSigned ≤ n ∧ n < UInt64.size
  | array items => WellFormedItems items
  | object fields => Entries.Ascending fields ∧ WellFormedFields fields
  | _ => True

/-- All items are well-formed. -/
def WellFormedItems : List Json → Prop
  | [] => True
  | v :: vs => WellFormed v ∧ WellFormedItems vs

/-- The values of all fields are well-formed. -/
def WellFormedFields : List (String × Json) → Prop
  | [] => True
  | (_, v) :: es => WellFormed v ∧ WellFormedFields es

end

mutual

/-- How deep arrays and objects nest. -/
def depth : Json → Nat
  | array items => depthOfItems items + 1
  | object fields => depthOfFields fields + 1
  | _ => 0

/-- The depth of the deepest item. -/
def depthOfItems : List Json → Nat
  | [] => 0
  | v :: vs => max (depth v) (depthOfItems vs)

/-- The depth of the deepest field. -/
def depthOfFields : List (String × Json) → Nat
  | [] => 0
  | (_, v) :: es => max (depth v) (depthOfFields es)

end

end Json

end ReactiveVars
