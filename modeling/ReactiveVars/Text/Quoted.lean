import ReactiveVars.Text.Unmarked

/-!
# Texts in diagnostics

A text that stands inside a diagnostic is put between double quotes. A quote, a backslash, a tab,
the two line ends and the null character are written with a backslash, a character without a mark
of its own as its number in braces, and everything else as it is.
-/

namespace ReactiveVars.Quoted

/-- The digits of a number in base sixteen, in lower case. -/
def hex (n : Nat) : List Char := Nat.toDigits 16 n

/-- How one character is written between the quotes. -/
def escape (c : Char) : List Char :=
  if c = '\x00' then ['\\', '0']
  else if c = '\t' then ['\\', 't']
  else if c = '\r' then ['\\', 'r']
  else if c = '\n' then ['\\', 'n']
  else if c = '"' then ['\\', '"']
  else if c = '\\' then ['\\', '\\']
  else if Unmarked.isUnmarked c then ['\\', 'u', '\x7b'] ++ hex c.toNat ++ ['\x7d']
  else [c]

/-- The text between quotes. -/
def quote (s : String) : String := String.ofList ('"' :: (s.toList.flatMap escape ++ ['"']))

end ReactiveVars.Quoted
