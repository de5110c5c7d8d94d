import ReactiveVars.Text.Utf8

/-!
# Form-encoded texts

In the query of a path a plus sign stands for a blank and a percent sign with two digits in base
sixteen for a byte. The bytes are then read leniently as text.
-/

namespace ReactiveVars.FormEncoded

/-- The value of a digit in base sixteen. -/
def hexDigit? (b : UInt8) : Option Nat :=
  if 0x30 ≤ b && b ≤ 0x39 then some (b.toNat - 0x30)
  else if 0x41 ≤ b && b ≤ 0x46 then some (b.toNat - 0x37)
  else if 0x61 ≤ b && b ≤ 0x66 then some (b.toNat - 0x57)
  else none

/-- The byte that a percent sign and the two bytes after it stand for. -/
def escaped? (high low : UInt8) : Option UInt8 :=
  match hexDigit? high, hexDigit? low with
  | some h, some l => some (UInt8.ofNat (h * 16 + l))
  | _, _ => none

/-- Undoes the encoding; a percent sign without two digits after it stands for itself. `done`
holds the bytes so far, latest first. -/
def unescape (done : List UInt8) : List UInt8 → List UInt8
  | [] => done.reverse
  | a :: rest =>
    if a = 0x2B then unescape (0x20 :: done) rest
    else if a ≠ 0x25 then unescape (a :: done) rest
    else match rest with
      | b :: c :: rest' =>
        match escaped? b c with
        | some byte => unescape (byte :: done) rest'
        | none => unescape (a :: done) (b :: c :: rest')
      | rest => unescape (a :: done) rest

/-- The text that a form-encoded text stands for. -/
def decode (cs : List Char) : String := Utf8.decodeLenient (unescape [] (Utf8.encode cs))

end ReactiveVars.FormEncoded
