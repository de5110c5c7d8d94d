import ReactiveVars.Text.Blank

/-!
# Settings

How long outgoing messages are gathered on either side, how long a frame may be, and what the
session is called. Settings are looked up by name; a text that is missing, or that gives no usable
value, leaves the usual one.
-/

namespace ReactiveVars

/-- The settings of a session. Times are numbers of milliseconds. -/
structure Settings where
  debounce : Nat
  clientDebounce : Nat
  maxFrame : Nat
  session : String
deriving DecidableEq

namespace Settings

/-- The usual settings. -/
def usual : Settings := ⟨10, 5, 1048576, "S1"⟩

/-- Unsigned integers have 64 bits. -/
def maxNumber : Nat := UInt64.size - 1

/-- The number that decimal digits write. -/
def number? (digits : List Char) : Option Nat :=
  if digits.isEmpty || !digits.all Char.isDigit then none
  else
    let n := digits.foldl (fun n c ↦ n * 10 + (c.toNat - 0x30)) 0
    if n ≤ maxNumber then some n else none

/-- An unsigned number, which may have a plus sign. -/
def parseNumber? (s : String) : Option Nat :=
  match s.toList with
  | '+' :: digits => number? digits
  | digits => number? digits

/-- A number above zero between blanks. -/
def positive? (s : String) : Option Nat := (parseNumber? (Blank.trim s)).filter (· ≠ 0)

/-- The settings that a look-up by name gives. -/
def ofLookup (lookup : String → Option String) : Settings where
  debounce := ((lookup "VARSYNC_DEBOUNCE_MS").bind positive?).getD usual.debounce
  clientDebounce := ((lookup "VARSYNC_CLIENT_DEBOUNCE_MS").bind positive?).getD usual.clientDebounce
  maxFrame := ((lookup "VARSYNC_MAX_FRAME").bind positive?).getD usual.maxFrame
  session := ((lookup "VARSYNC_SESSION").filter fun s ↦ !(Blank.trim s).isEmpty).getD usual.session

end Settings

end ReactiveVars
