import ReactiveVars.Decimal.Double

/-!
# The shortest decimal of a double

A double is written with the fewest digits that read back as it, and of those with the digits
nearest to it; of two equally near the even one is taken. Reading back rounds to the nearest double,
so `Double.shortest` checks each candidate by reading it.

The digits are set out with the point in its place for magnitudes from `10 ^ -5` up to `10 ^ 16`,
and with an exponent outside of these.
-/

namespace ReactiveVars.Double

/-- A decimal number, `digits * 10 ^ exponent`. -/
structure Decimal where
  digits : Nat
  exponent : Int
deriving DecidableEq

/-- How many decimal digits a number has. -/
def digitCount (n : Nat) : Nat := (Nat.toDigits 10 n).length

/-- The place of the point of a positive fraction: the least `k` for which it is below `10 ^ k`. -/
def pointPlace (num den : Nat) : Int :=
  if den ≤ num then digitCount (num / den) else 1 - (digitCount ((den - 1) / num) : Int)

/-- Takes the zeros off the end of a decimal; `fuel` bounds how many. -/
def trimZeros : Nat → Decimal → Decimal
  | 0, d => d
  | fuel + 1, d =>
    if d.digits % 10 = 0 ∧ d.digits ≠ 0 then trimZeros fuel ⟨d.digits / 10, d.exponent + 1⟩ else d

/-- A fraction in steps of `10 ^ exponent`, as a fraction. -/
def inSteps (num den : Nat) (exponent : Int) : Nat × Nat :=
  if 0 ≤ exponent then (num, den * Nat.pow 10 exponent.toNat)
  else (num * Nat.pow 10 (-exponent).toNat, den)

/-- Whether a decimal reads back as the double. -/
def readsBack (d : Double) (c : Decimal) : Bool :=
  decide (ofDecimal? d.negative c.digits c.exponent = some d)

/-- The better of the two neighbours of a double on the grid of steps `10 ^ exponent`, among those
that read back. -/
def onGrid? (d : Double) (exponent : Int) : Option Decimal :=
  let (num, den) := inSteps d.units unitsPerOne exponent
  let below : Decimal := ⟨num / den, exponent⟩
  let above : Decimal := ⟨num / den + 1, exponent⟩
  match readsBack d below, readsBack d above with
  | false, false => none
  | true, false => some below
  | false, true => some above
  | true, true => if roundedQuotient num den = num / den then some below else some above

/-- The decimal that is the double exactly. -/
def exactDecimal (d : Double) : Decimal :=
  if 1074 ≤ d.scale then ⟨d.significand <<< (d.scale - 1074), 0⟩
  else ⟨d.significand * Nat.pow 5 (1074 - d.scale), (d.scale : Int) - 1074⟩

/-- The shortest decimal of a double; no double needs more than seventeen digits. -/
def shortest (d : Double) : Decimal :=
  let place := pointPlace d.units unitsPerOne
  let found := ((List.range 17).findSome? fun n ↦ onGrid? d (place - (n + 1 : Nat))).getD
    (exactDecimal d)
  trimZeros (digitCount found.digits) found

/-- The digits of a decimal with the point, or an exponent, in its place. -/
def layOut (digits : List Char) (exponent : Int) : List Char :=
  let place := digits.length + exponent
  if 0 ≤ exponent ∧ place ≤ 16 then
    digits ++ List.replicate exponent.toNat '0' ++ ['.', '0']
  else if 0 < place ∧ place ≤ 16 then
    digits.take place.toNat ++ '.' :: digits.drop place.toNat
  else if -5 < place ∧ place ≤ 0 then
    '0' :: '.' :: (List.replicate (-place).toNat '0' ++ digits)
  else
    let mark := if 0 < place - 1 then ['e', '+'] else ['e', '-']
    let power := mark ++ Nat.toDigits 10 (place - 1).natAbs
    match digits with
    | [] => power
    | [digit] => digit :: power
    | digit :: rest => digit :: '.' :: (rest ++ power)

/-- The text of a double. -/
def text (d : Double) : String :=
  let sign := if d.negative then ['-'] else []
  if d.isZero then String.ofList (sign ++ ['0', '.', '0'])
  else
    let decimal := d.shortest
    String.ofList (sign ++ layOut (Nat.toDigits 10 decimal.digits) decimal.exponent)

end ReactiveVars.Double
