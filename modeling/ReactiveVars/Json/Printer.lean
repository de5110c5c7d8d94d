import ReactiveVars.Json.Basic
import ReactiveVars.Decimal.Shortest

/-!
# The text of a JSON value

The compact text has no blanks. In a string the quote, the backslash and the characters below the
space are escaped, those with a short escape by it and the others by their number; every other
character stands for itself.
-/

namespace ReactiveVars.Json

/-- A digit in base sixteen. -/
def hexDigit (n : Nat) : Char := if n < 10 then Char.ofNat (0x30 + n) else Char.ofNat (0x57 + n)

/-- How one character is written inside a string. -/
def escape (c : Char) : List Char :=
  if c = '"' then ['\\', '"']
  else if c = '\\' then ['\\', '\\']
  else if 0x20 ≤ c.toNat then [c]
  else match c.toNat with
    | 0x08 => ['\\', 'b']
    | 0x09 => ['\\', 't']
    | 0x0A => ['\\', 'n']
    | 0x0C => ['\\', 'f']
    | 0x0D => ['\\', 'r']
    | n => ['\\', 'u', '0', '0', hexDigit (n / 16), hexDigit (n % 16)]

/-- A string between quotes, in front of what follows it. -/
def writeString (s : String) (rest : List Char) : List Char :=
  '"' :: (s.toList.flatMap escape ++ '"' :: rest)

mutual

/-- The text of a value in front of what follows it. -/
def write : Json → List Char → List Char
  | null, rest => 'n' :: 'u' :: 'l' :: 'l' :: rest
  | bool true, rest => 't' :: 'r' :: 'u' :: 'e' :: rest
  | bool false, rest => 'f' :: 'a' :: 'l' :: 's' :: 'e' :: rest
  | int n, rest => (if n < 0 then ['-'] else []) ++ (Nat.toDigits 10 n.natAbs ++ rest)
  | double d, rest => d.text.toList ++ rest
  | string s, rest => writeString s rest
  | array items, rest => '[' :: writeItems items (']' :: rest)
  | object fields, rest => '\x7b' :: writeFields fields ('\x7d' :: rest)

/-- The items with commas between them. -/
def writeItems : List Json → List Char → List Char
  | [], rest => rest
  | [v], rest => write v rest
  | v :: v' :: vs, rest => write v (',' :: writeItems (v' :: vs) rest)

/-- The fields with commas between them. -/
def writeFields : List (String × Json) → List Char → List Char
  | [], rest => rest
  | [(k, v)], rest => writeString k (':' :: write v rest)
  | (k, v) :: e :: es, rest => writeString k (':' :: write v (',' :: writeFields (e :: es) rest))

end

/-- The compact text of a value. -/
def text (v : Json) : String := String.ofList (v.write [])

end ReactiveVars.Json
