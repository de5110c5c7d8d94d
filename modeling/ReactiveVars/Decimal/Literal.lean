import ReactiveVars.Decimal.Double

/-!
# Decimal literals

A literal of a number is a sign, the digits before and after the point and a power of ten. Without
point and exponent, and within the range of the integers, it is an integer.

Any other literal is read as a double in three roundings. The leading digits that fit into 64 bits
are rounded to a double, and that double is multiplied or divided by the rounded power of ten.
Integer digits that do not fit only raise the power, fraction digits that do not fit are dropped.
-/

namespace ReactiveVars

/-- A literal of a number, its digits as numbers below ten. -/
structure Literal where
  negative : Bool
  /-- The digits before the point. -/
  whole : List Nat
  /-- The digits after the point, if there is one. -/
  fraction : Option (List Nat)
  /-- The exponent, if there is one. -/
  power : Option Int
deriving DecidableEq

/-- What a literal stands for. -/
inductive Numeral where
  | int (n : Int)
  | double (d : Double)
deriving DecidableEq

namespace Literal

/-- Integers are those of 64 bits, with or without sign. -/
def maxUnsigned : Nat := UInt64.size - 1

/-- The least integer. -/
def minSigned : Int := -0x8000000000000000

/-- Appends digits to a number while the result fits into 64 bits; returns it with the digits left
over. -/
def absorb (n : Nat) : List Nat → Nat × List Nat
  | [] => (n, [])
  | d :: ds => if n * 10 + d ≤ maxUnsigned then absorb (n * 10 + d) ds else (n, d :: ds)

/-- A double times a power of ten, `none` beyond the range. Powers below `10 ^ -308` divide by
`10 ^ 308` as often as needed. -/
def timesPowerOfTen? (d : Double) (power : Int) : Option Double :=
  if 0 ≤ power then
    if power ≤ 308 then d.scaleUp? (Double.powerOfTen power.toNat)
    else if d.isZero then some d else none
  else if -308 ≤ power then some (d.scaleDown (Double.powerOfTen (-power).toNat))
  else if d.isZero then some d
  else timesPowerOfTen? (d.scaleDown (Double.powerOfTen 308)) (power + 308)
termination_by (-power).toNat

/-- The double of a literal, `none` beyond the range. -/
def double? (l : Literal) : Option Double :=
  let (start, unread) := absorb 0 l.whole
  let fraction := l.fraction.getD []
  let (digits, dropped) := absorb start fraction
  let used := fraction.length - dropped.length
  let power := (unread.length : Int) - (used : Int) + l.power.getD 0
  (Double.ofNat? l.negative digits).bind fun d ↦ timesPowerOfTen? d power

/-- The number of a literal, `none` beyond the range of the doubles. A negative zero is a double. -/
def value? (l : Literal) : Option Numeral :=
  let magnitude : Nat := l.whole.foldl (fun n d ↦ n * 10 + d) 0
  let integer := if l.negative then -(magnitude : Int) else magnitude
  if l.fraction.isNone ∧ l.power.isNone ∧ magnitude ≤ maxUnsigned ∧ minSigned ≤ integer
      ∧ ¬ (l.negative ∧ magnitude = 0) then
    some (.int integer)
  else l.double?.map .double

end Literal

end ReactiveVars
