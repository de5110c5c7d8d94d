/-!
# Doubles

A finite double is a sign, a significand below `2 ^ 53` and a scale: its magnitude is
`significand * 2 ^ scale` units of `2 ^ -1074`. Every double has one such form, in which the
significand is at least `2 ^ 52` unless the scale is zero.

Arithmetic is exact on fractions of natural numbers and rounds once, to the nearest double and in a
tie to the one with the even significand.
-/

namespace ReactiveVars

/-- A finite double. -/
structure Double where
  /-- The sign; a zero has one too. -/
  negative : Bool
  /-- The digits in base two. -/
  significand : Nat
  /-- The place of the digits, counted from the least one that any double has. -/
  scale : Nat
  significand_lt : significand < 1 <<< 53
  /-- No leading digit is wasted unless the place is the least. -/
  normal : 1 <<< 52 ≤ significand ∨ scale = 0
  scale_le : scale ≤ 2045
deriving DecidableEq

namespace Double

/-- The double with the given parts, if they have the form of one. -/
def ofParts? (negative : Bool) (significand scale : Nat) : Option Double :=
  if h : significand < 1 <<< 53 ∧ (1 <<< 52 ≤ significand ∨ scale = 0) ∧ scale ≤ 2045 then
    some ⟨negative, significand, scale, h.1, h.2.1, h.2.2⟩
  else none

/-- Zero, of either sign. -/
def zero (negative : Bool) : Double :=
  ⟨negative, 0, 0, by decide, .inr rfl, by decide⟩

instance : Inhabited Double := ⟨zero false⟩

/-- Whether the magnitude is zero. -/
def isZero (d : Double) : Bool := d.significand == 0

/-- The double of the other sign. -/
def neg (d : Double) : Double := { d with negative := !d.negative }

/-- Whether two doubles are the same number: the two zeros are. -/
def same (d d' : Double) : Bool := (d.isZero && d'.isZero) || decide (d = d')

/-- The magnitude in units of `2 ^ -1074`. -/
def units (d : Double) : Nat := d.significand <<< d.scale

/-- The number of units in one. -/
def unitsPerOne : Nat := 1 <<< 1074

/-- The quotient rounded to a whole number, a half to the even neighbour. -/
def roundedQuotient (num den : Nat) : Nat :=
  let q := num / den
  let r := num % den
  if 2 * r < den then q else if den < 2 * r then q + 1 else q + q % 2

/-- The double next to a fraction, `none` beyond the range. -/
def nearest? (negative : Bool) (num den : Nat) : Option Double :=
  let units := num * unitsPerOne
  let scale := (units / den).log2 - 52
  let significand := roundedQuotient units (den <<< scale)
  if significand < 1 <<< 53 then ofParts? negative significand scale
  else ofParts? negative (significand / 2) (scale + 1)

/-- The double next to a product of magnitudes, of the sign of the first factor. -/
def scaleUp? (d factor : Double) : Option Double :=
  nearest? d.negative (d.units * factor.units) (unitsPerOne * unitsPerOne)

/-- The double next to a quotient of magnitudes, of the sign of the dividend. -/
def scaleDown (d divisor : Double) : Double :=
  (nearest? d.negative d.units divisor.units).getD (zero d.negative)

/-- The double next to a natural number. -/
def ofNat? (negative : Bool) (n : Nat) : Option Double := nearest? negative n 1

/-- The double next to a power of ten. -/
def powerOfTen (k : Nat) : Double := (nearest? false (Nat.pow 10 k) 1).getD default

/-- The double next to `digits * 10 ^ exponent`, with one rounding. -/
def ofDecimal? (negative : Bool) (digits : Nat) (exponent : Int) : Option Double :=
  if 0 ≤ exponent then nearest? negative (digits * Nat.pow 10 exponent.toNat) 1
  else nearest? negative digits (Nat.pow 10 (-exponent).toNat)

end Double

end ReactiveVars
