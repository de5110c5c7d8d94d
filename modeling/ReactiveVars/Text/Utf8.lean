/-!
# Characters and their bytes

UTF-8, in both directions. Bytes that encode no character are met in two ways: a strict reading
refuses them, a lenient one puts the replacement character for each maximal run of bytes that
starts a character and does not finish it.
-/

namespace ReactiveVars.Utf8

/-- The bytes of a text. -/
def encode (cs : List Char) : List UInt8 := cs.flatMap String.utf8EncodeChar

/-- The bytes of a string. -/
def ofString (s : String) : List UInt8 := encode s.toList

/-- The least and the greatest second byte after a leading byte of more than one byte, `none` for
a byte that leads none. -/
def secondByte (lead : UInt8) : Option (UInt8 × UInt8) :=
  if lead < 0xC2 then none
  else if lead = 0xE0 then some (0xA0, 0xBF)
  else if lead = 0xED then some (0x80, 0x9F)
  else if lead = 0xF0 then some (0x90, 0xBF)
  else if lead = 0xF4 then some (0x80, 0x8F)
  else if lead < 0xF4 then some (0x80, 0xBF)
  else none

/-- Whether a byte may follow a leading byte directly. -/
def follows (lead b : UInt8) : Bool :=
  match secondByte lead with
  | some (low, high) => low ≤ b && b ≤ high
  | none => false

/-- A byte that only continues a character. -/
def isContinuation (b : UInt8) : Bool := 0x80 ≤ b && b ≤ 0xBF

/-- The low six bits of a continuation byte. -/
def payload (b : UInt8) : Nat := b.toNat % 64

/-- Reads the characters of a byte string from the front. Each piece is a character, or `none` for
a run of bytes that is not one; `done` holds the pieces read so far, latest first. -/
def readPieces (done : List (Option Char)) : List UInt8 → List (Option Char)
  | [] => done.reverse
  | a :: rest =>
    if a < 0x80 then readPieces (some (Char.ofNat a.toNat) :: done) rest
    else match rest with
      | [] => (none :: done).reverse
      | b :: rest' =>
        if !follows a b then readPieces (none :: done) (b :: rest')
        else if a < 0xE0 then
          readPieces (some (Char.ofNat (a.toNat % 32 * 64 + payload b)) :: done) rest'
        else match rest' with
          | [] => (none :: done).reverse
          | c :: rest'' =>
            if !isContinuation c then readPieces (none :: done) (c :: rest'')
            else if a < 0xF0 then
              readPieces (some (Char.ofNat
                ((a.toNat % 16 * 64 + payload b) * 64 + payload c)) :: done) rest''
            else match rest'' with
              | [] => (none :: done).reverse
              | d :: rest''' =>
                if !isContinuation d then readPieces (none :: done) (d :: rest''')
                else readPieces (some (Char.ofNat
                  (((a.toNat % 8 * 64 + payload b) * 64 + payload c) * 64 + payload d)) :: done)
                  rest'''

/-- The characters of a byte string, with `none` where the bytes are not a character. -/
def pieces (bytes : List UInt8) : List (Option Char) := readPieces [] bytes

/-- The text of a byte string, if all of it is text. -/
def decode? (bytes : List UInt8) : Option String :=
  let found := pieces bytes
  if found.all Option.isSome then some (String.ofList (found.filterMap id)) else none

/-- Stands for bytes that are not text. -/
def replacement : Char := Char.ofNat 0xFFFD

/-- The text of a byte string, with a replacement character for whatever is not text. -/
def decodeLenient (bytes : List UInt8) : String :=
  String.ofList ((pieces bytes).map fun piece ↦ piece.getD replacement)

end ReactiveVars.Utf8
