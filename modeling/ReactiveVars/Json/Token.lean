import ReactiveVars.Json.Basic
import ReactiveVars.Decimal.Literal
import ReactiveVars.Text.Utf8

/-!
# The tokens of a JSON text

A byte string is cut into tokens from the front. What cannot be a token becomes a broken one, which
is the last; it says what is wrong with it, for a reader who needs its value and for one who only
skips it. A text can end too early, or it can be malformed.

Whoever skips a value does not look into it: the bytes of a string need not be text, and a truncated
number counts as malformed.

## Main statements

* `Token.next_shorter`: a token takes at least one byte, so the tokens of a text are finitely many.
-/

namespace ReactiveVars.Json

/-- Why no value can be read. -/
inductive Fault where
  /-- The text ends where more is needed. -/
  | truncated
  /-- The text is not JSON. -/
  | malformed
  /-- The text is JSON but not of the form that is wanted. -/
  | unfit
deriving DecidableEq

/-- A token. -/
inductive Token where
  | beginArray
  | endArray
  | beginObject
  | endObject
  | comma
  | colon
  | constant (v : Json)
  | number (literal : Literal)
  /-- A closed string, without text if its bytes or its escapes are not text. -/
  | string (text : Option String)
  | brokenString (read skipped : Fault)
  | brokenValue (read skipped : Fault)
  /-- A byte that starts no token. -/
  | stray

/-! ## Strings -/

/-- A part of a string: a byte of text, or a numbered unit of 16 bits. -/
inductive Piece where
  | byte (b : UInt8)
  | unit (n : Nat)

/-- The value of a digit in base sixteen. -/
def hexDigit? (b : UInt8) : Option Nat :=
  if 0x30 ≤ b && b ≤ 0x39 then some (b.toNat - 0x30)
  else if 0x41 ≤ b && b ≤ 0x46 then some (b.toNat - 0x37)
  else if 0x61 ≤ b && b ≤ 0x66 then some (b.toNat - 0x57)
  else none

/-- The number that four digits in base sixteen write. -/
def unit? (a b c d : UInt8) : Option Nat := do
  let a ← hexDigit? a
  let b ← hexDigit? b
  let c ← hexDigit? c
  let d ← hexDigit? d
  return ((a * 16 + b) * 16 + c) * 16 + d

/-- The byte that a short escape stands for. -/
def shortEscape? (b : UInt8) : Option UInt8 :=
  if b = 0x22 || b = 0x5C || b = 0x2F then some b
  else if b = 0x62 then some 0x08
  else if b = 0x66 then some 0x0C
  else if b = 0x6E then some 0x0A
  else if b = 0x72 then some 0x0D
  else if b = 0x74 then some 0x09
  else none

/-- Reads a string from behind its opening quote to behind its closing quote. `done` holds the
pieces so far, latest first. -/
def scanString (done : List Piece) : List UInt8 → List Piece × Except Fault (List UInt8)
  | [] => (done.reverse, .error .truncated)
  | b :: rest =>
    if b = 0x22 then (done.reverse, .ok rest)
    else if b = 0x5C then
      match rest with
      | [] => (done.reverse, .error .truncated)
      | e :: rest' =>
        if e = 0x75 then
          match rest' with
          | h₁ :: h₂ :: h₃ :: h₄ :: rest'' =>
            match unit? h₁ h₂ h₃ h₄ with
            | some n => scanString (.unit n :: done) rest''
            | none => (done.reverse, .error .malformed)
          | _ => (done.reverse, .error .truncated)
        else
          match shortEscape? e with
          | some byte => scanString (.byte byte :: done) rest'
          | none => (done.reverse, .error .malformed)
    else if b < 0x20 then (done.reverse, .error .malformed)
    else scanString (.byte b :: done) rest

/-- Units that only stand first, or second, in a pair. -/
def isHighUnit (n : Nat) : Bool := 0xD800 ≤ n && n ≤ 0xDBFF

@[inherit_doc isHighUnit] def isLowUnit (n : Nat) : Bool := 0xDC00 ≤ n && n ≤ 0xDFFF

/-- The character that a pair of units stands for. -/
def pairedChar (high low : Nat) : Char :=
  Char.ofNat (0x10000 + (high - 0xD800) * 0x400 + (low - 0xDC00))

/-- The bytes of the pieces, latest first in `done`, unless a unit of a pair stands alone. -/
def pieceBytes? (done : List UInt8) : List Piece → Option (List UInt8)
  | [] => some done.reverse
  | .byte b :: ps => pieceBytes? (b :: done) ps
  | .unit n :: ps =>
    if isLowUnit n then none
    else if isHighUnit n then
      match ps with
      | .unit m :: ps' =>
        if isLowUnit m then
          pieceBytes? ((String.utf8EncodeChar (pairedChar n m)).reverse ++ done) ps'
        else none
      | _ => none
    else pieceBytes? ((String.utf8EncodeChar (Char.ofNat n)).reverse ++ done) ps

/-- Whether no unit of a pair stands alone, except for a first one at the very end. -/
def arePaired : List Piece → Bool
  | [] => true
  | .byte _ :: ps => arePaired ps
  | .unit n :: ps =>
    if isLowUnit n then false
    else if isHighUnit n then
      match ps with
      | [] => true
      | .unit m :: ps' => isLowUnit m && arePaired ps'
      | .byte _ :: _ => false
    else arePaired ps

/-- The text of the pieces of a string. -/
def pieceText? (ps : List Piece) : Option String := (pieceBytes? [] ps).bind Utf8.decode?

/-- The token of a string and what follows it, read from behind the opening quote. -/
def stringToken (bytes : List UInt8) : Token × List UInt8 :=
  match scanString [] bytes with
  | (ps, .ok rest) => (.string (pieceText? ps), rest)
  | (ps, .error fault) =>
    (.brokenString (if arePaired ps then fault else .malformed) fault, [])

/-! ## Numbers -/

/-- Whether a byte is a decimal digit. -/
def isDigit (b : UInt8) : Bool := 0x30 ≤ b && b ≤ 0x39

/-- The digits at the front of a byte string. -/
def digits (bytes : List UInt8) : List Nat := (bytes.takeWhile isDigit).map fun b ↦ b.toNat - 0x30

/-- What follows the digits at the front. -/
def afterDigits (bytes : List UInt8) : List UInt8 := bytes.dropWhile isDigit

/-- The fault of a number that lacks a digit before the given rest. -/
def missingDigit (rest : List UInt8) : Fault := if rest.isEmpty then .truncated else .malformed

/-- Reads the fraction of a number. -/
def scanFraction : List UInt8 → Except Fault (Option (List Nat) × List UInt8)
  | 0x2E :: rest =>
    if (digits rest).isEmpty then .error (missingDigit rest)
    else .ok (some (digits rest), afterDigits rest)
  | bytes => .ok (none, bytes)

/-- The sign in front of an exponent, and what follows it. -/
def scanSign : List UInt8 → Bool × List UInt8
  | 0x2B :: rest => (false, rest)
  | 0x2D :: rest => (true, rest)
  | bytes => (false, bytes)

/-- The number that decimal digits write. -/
def digitsValue (ds : List Nat) : Nat := ds.foldl (fun n d ↦ n * 10 + d) 0

/-- Reads the exponent of a number. -/
def scanPower : List UInt8 → Except Fault (Option Int × List UInt8)
  | [] => .ok (none, [])
  | b :: rest =>
    if b = 0x65 || b = 0x45 then
      let (negative, rest') := scanSign rest
      if (digits rest').isEmpty then .error (missingDigit rest')
      else
        let power : Int := digitsValue (digits rest')
        .ok (some (if negative then -power else power), afterDigits rest')
    else .ok (none, b :: rest)

/-- Reads a number from behind its sign. A zero is not followed by further digits. -/
def scanNumber (negative : Bool) (bytes : List UInt8) :
    Except Fault (Literal × List UInt8) :=
  match digits bytes with
  | [] => .error (missingDigit bytes)
  | 0 :: _ :: _ => .error .malformed
  | whole => do
    let (fraction, rest) ← scanFraction (afterDigits bytes)
    let (power, rest') ← scanPower rest
    return (⟨negative, whole, fraction, power⟩, rest')

/-- The token of a number and what follows it. -/
def numberToken (negative : Bool) (bytes : List UInt8) : Token × List UInt8 :=
  match scanNumber negative bytes with
  | .ok (literal, rest) => (.number literal, rest)
  | .error fault => (.brokenValue fault .malformed, [])

/-! ## Tokens -/

/-- Reads the rest of a word. -/
def scanWord : List UInt8 → List UInt8 → Except Fault (List UInt8)
  | [], bytes => .ok bytes
  | _ :: _, [] => .error .truncated
  | w :: ws, b :: bytes => if w = b then scanWord ws bytes else .error .malformed

/-- The token of a word and what follows it, read from behind the first letter. -/
def wordToken (v : Json) (word bytes : List UInt8) : Token × List UInt8 :=
  match scanWord word bytes with
  | .ok rest => (.constant v, rest)
  | .error fault => (.brokenValue fault fault, [])

/-- Whether a byte may stand between tokens. -/
def isBlank (b : UInt8) : Bool := b = 0x20 || b = 0x0A || b = 0x09 || b = 0x0D

/-- The token that starts with the byte `b`, and what follows it. -/
def tokenAt (b : UInt8) (rest : List UInt8) : Token × List UInt8 :=
  match b with
  | 0x5B => (.beginArray, rest)
  | 0x5D => (.endArray, rest)
  | 0x7B => (.beginObject, rest)
  | 0x7D => (.endObject, rest)
  | 0x2C => (.comma, rest)
  | 0x3A => (.colon, rest)
  | 0x22 => stringToken rest
  | 0x6E => wordToken null [0x75, 0x6C, 0x6C] rest
  | 0x74 => wordToken (bool true) [0x72, 0x75, 0x65] rest
  | 0x66 => wordToken (bool false) [0x61, 0x6C, 0x73, 0x65] rest
  | 0x2D => numberToken true rest
  | b => if isDigit b then numberToken false (b :: rest) else (.stray, [])

/-- The first token and what follows it, `none` if there is nothing but blanks. -/
def nextToken (bytes : List UInt8) : Option (Token × List UInt8) :=
  match bytes.dropWhile isBlank with
  | [] => none
  | b :: rest => some (tokenAt b rest)

/-! ## A token takes at least one byte -/

theorem scanString_length (done : List Piece) (bytes : List UInt8) {ps : List Piece}
    {rest : List UInt8} (h : scanString done bytes = (ps, .ok rest)) :
    rest.length ≤ bytes.length := by
  fun_induction scanString done bytes <;> simp_all <;> grind

theorem afterDigits_length (bytes : List UInt8) : (afterDigits bytes).length ≤ bytes.length :=
  (List.dropWhile_sublist isDigit).length_le

theorem scanSign_length (bytes : List UInt8) : (scanSign bytes).2.length ≤ bytes.length := by
  unfold scanSign
  split <;> simp

theorem scanFraction_length {bytes rest : List UInt8} {fraction : Option (List Nat)}
    (h : scanFraction bytes = .ok (fraction, rest)) : rest.length ≤ bytes.length := by
  unfold scanFraction at h
  split at h
  · next tail =>
    split at h
    · simp at h
    · have := afterDigits_length tail
      grind
  · grind

theorem scanPower_length {bytes rest : List UInt8} {power : Option Int}
    (h : scanPower bytes = .ok (power, rest)) : rest.length ≤ bytes.length := by
  unfold scanPower at h
  split at h
  · grind
  · next b tail =>
    split at h
    · have := scanSign_length tail
      have := afterDigits_length (scanSign tail).2
      grind
    · grind

theorem scanNumber_length {negative : Bool} {bytes rest : List UInt8} {literal : Literal}
    (h : scanNumber negative bytes = .ok (literal, rest)) :
    rest.length ≤ (afterDigits bytes).length := by
  unfold scanNumber at h
  split at h
  · simp at h
  · simp at h
  · simp only [bind, Except.bind, pure, Except.pure] at h
    split at h
    · simp at h
    · next r hf =>
      split at h
      · simp at h
      · next r' hp =>
        have h₁ : r.2.length ≤ (afterDigits bytes).length := scanFraction_length hf
        have h₂ : r'.2.length ≤ r.2.length := scanPower_length hp
        simp only [Except.ok.injEq, Prod.mk.injEq] at h
        rw [← h.2]
        omega

theorem scanWord_length {word bytes rest : List UInt8} (h : scanWord word bytes = .ok rest) :
    rest.length ≤ bytes.length := by
  fun_induction scanWord word bytes with
  | case1 => simp_all
  | case2 => simp at h
  | case3 w ws bytes ih => exact Nat.le_succ_of_le (ih h)
  | case4 => simp at h

theorem tokenAt_length (b : UInt8) (rest : List UInt8) :
    (tokenAt b rest).2.length ≤ rest.length := by
  have hnumber : ∀ (negative : Bool) (bytes : List UInt8),
      (numberToken negative bytes).2.length ≤ (afterDigits bytes).length := by
    intro negative bytes
    unfold numberToken
    split
    · next h => exact scanNumber_length h
    · simp
  have hword : ∀ v word, (wordToken v word rest).2.length ≤ rest.length := by
    intro v word
    unfold wordToken
    split
    · next h => exact scanWord_length h
    · simp
  have hstring : (stringToken rest).2.length ≤ rest.length := by
    unfold stringToken
    split
    · next h => exact scanString_length [] rest h
    · simp
  unfold tokenAt
  split
  · exact Nat.le_refl _
  · exact Nat.le_refl _
  · exact Nat.le_refl _
  · exact Nat.le_refl _
  · exact Nat.le_refl _
  · exact Nat.le_refl _
  · exact hstring
  · exact hword _ _
  · exact hword _ _
  · exact hword _ _
  · exact Nat.le_trans (hnumber _ _) (afterDigits_length _)
  · split
    · next hd =>
      refine Nat.le_trans (hnumber _ _) ?_
      rw [afterDigits, List.dropWhile_cons, if_pos hd]
      exact afterDigits_length rest
    · simp

theorem Token.next_shorter {bytes rest : List UInt8} {token : Token}
    (h : nextToken bytes = some (token, rest)) : rest.length < bytes.length := by
  unfold nextToken at h
  split at h
  · simp at h
  · next b tail heq =>
    have h₁ := tokenAt_length b tail
    have h₂ := (List.dropWhile_sublist (l := bytes) isBlank).length_le
    rw [heq] at h₂
    simp only [Option.some.injEq] at h
    rw [h] at h₁
    simp only [List.length_cons] at h₂
    simp only at h₁
    omega

/-- The tokens of a byte string, with those read so far, latest first, in `done`. -/
def readTokens (done : List Token) (bytes : List UInt8) : List Token :=
  match _h : nextToken bytes with
  | none => done.reverse
  | some (token, rest) => readTokens (token :: done) rest
termination_by bytes.length
decreasing_by exact Token.next_shorter _h

/-- The tokens of a byte string; a broken or stray one is the last. -/
def tokens (bytes : List UInt8) : List Token := readTokens [] bytes

end ReactiveVars.Json
