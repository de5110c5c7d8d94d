import ReactiveVars.Wire.Codec

/-!
# Frames

On a byte stream each batch travels in a frame: the length of the payload in four bytes, the most
significant first, and the payload. A payload longer than a given maximum is not taken; its bytes
are skipped, so the frames behind it are still read.
-/

namespace ReactiveVars.Frame

/-- The length that four bytes write. -/
def lengthOf (a b c d : UInt8) : Nat :=
  ((a.toNat * 256 + b.toNat) * 256 + c.toNat) * 256 + d.toNat

/-- The four bytes that write a length. -/
def header (length : Nat) : List UInt8 :=
  [UInt8.ofNat (length >>> 24), UInt8.ofNat (length >>> 16), UInt8.ofNat (length >>> 8),
    UInt8.ofNat length]

/-! ## Writing -/

/-- The frame of a payload. -/
def write (maximum : Nat) (payload : List UInt8) : Except CodecError (List UInt8) :=
  if maximum < payload.length ∨ UInt32.size ≤ payload.length then
    .error (.frameTooLarge payload.length maximum)
  else .ok (header payload.length ++ payload)

/-- The bytes written for a payload, none if it is too large. -/
def writeOrDrop (maximum : Nat) (payload : List UInt8) : List UInt8 :=
  match write maximum payload with
  | .ok bytes => bytes
  | .error _ => []

/-- The bytes written for some batches; those too large are dropped. -/
def writeAll (maximum : Nat) (batches : List Batch) : List UInt8 :=
  batches.flatMap fun b ↦ writeOrDrop maximum b.encode

/-! ## Reading -/

/-- How a stream ends: it is closed, or it breaks off. -/
inductive Ending where
  | closed
  | reset
deriving DecidableEq

/-- What a reader meets that needs more bytes than there are. -/
def Ending.error : Ending → CodecError
  | closed => .unexpectedEnd
  | reset => .connectionReset

/-- Reads one frame; returns its payload and the bytes behind it. A payload that is too large is
still in the bytes that are returned. -/
def read (maximum : Nat) (ending : Ending) :
    List UInt8 → Except CodecError (List UInt8) × List UInt8
  | a :: b :: c :: d :: rest =>
    let length := lengthOf a b c d
    if maximum < length then (.error (.frameTooLarge length maximum), rest)
    else if length ≤ rest.length then (.ok (rest.take length), rest.drop length)
    else (.error ending.error, [])
  | _ => (.error ending.error, [])

/-- Reads all frames of a stream. Returns what each of them holds, and why reading stopped if it was
not for the end of the stream. -/
def readAll (maximum : Nat) (ending : Ending) :
    List UInt8 → List (Except CodecError Batch) × Except CodecError Unit
  | a :: b :: c :: d :: rest =>
    let length := lengthOf a b c d
    if length ≤ rest.length then
      let found :=
        if maximum < length then .error (.frameTooLarge length maximum)
        else Batch.decode (rest.take length)
      let (more, stop) := readAll maximum ending (rest.drop length)
      (found :: more, stop)
    else match ending with
      | .reset => ([], .error .connectionReset)
      | .closed =>
        (if maximum < length then [.error (.frameTooLarge length maximum)] else [], .ok ())
  | _ =>
    match ending with
    | .reset => ([], .error .connectionReset)
    | .closed => ([], .ok ())
termination_by bytes => bytes.length
decreasing_by simp only [List.length_drop, List.length_cons]; omega

end ReactiveVars.Frame
