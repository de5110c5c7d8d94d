import ReactiveVars.Host

/-!
# The program

Frames come in on the standard input and go out on the standard output; the settings are looked up
in the environment. A task waits for the next frame while deadlines are watched.
-/

namespace ReactiveVars.Program

/-- Reads bytes until there are as many as wanted or the input ends. -/
partial def readBytes (input : IO.FS.Stream) (wanted : Nat) (found : ByteArray) : IO ByteArray := do
  if wanted ≤ found.size then return found
  let chunk ← input.read (USize.ofNat (min (wanted - found.size) 65536))
  if chunk.isEmpty then return found
  readBytes input wanted (found ++ chunk)

/-- Skips bytes. -/
partial def skipBytes (input : IO.FS.Stream) (count : Nat) : IO Unit := do
  if count = 0 then return
  let chunk ← input.read (USize.ofNat (min count 65536))
  if chunk.isEmpty then return
  skipBytes input (count - chunk.size)

/-- Reads the next frame; nothing at the end of the input. -/
def readFrame (input : IO.FS.Stream) (maximum : Nat) : IO (Option (Except CodecError Batch)) := do
  let header ← readBytes input 4 .empty
  match header.toList with
  | [a, b, c, d] =>
    let length := Frame.lengthOf a b c d
    if maximum < length then
      skipBytes input length
      return some (.error (.frameTooLarge length maximum))
    else
      let payload ← readBytes input length .empty
      if payload.size < length then return none
      return some (Batch.decode payload.toList)
  | _ => return none

/-- Writes the frames of the batches that the host has to write. -/
def writeOutgoing (output : IO.FS.Stream) (maximum : Nat) (h : Host) : IO Host := do
  let (batches, h) := h.takeOutgoing
  for b in batches do
    output.write (ByteArray.mk (Frame.writeAll maximum [b]).toArray)
    output.flush
  return h

/-- Serves frames until the input ends. -/
partial def serve (input output : IO.FS.Stream) (maximum : Nat) (h : Host)
    (next : Task (Except IO.Error (Option (Except CodecError Batch)))) : IO Host := do
  if ← IO.hasFinished next then
    match next.get with
    | .ok (some frame) =>
      let h ← writeOutgoing output maximum (h.receive (← IO.monoMsNow) frame)
      serve input output maximum h (← IO.asTask (readFrame input maximum))
    | _ => return h
  else
    IO.sleep 1
    let h ← writeOutgoing output maximum (h.expire (← IO.monoMsNow))
    serve input output maximum h next

/-- Looks the settings up in the environment. -/
def readSettings : IO Settings := do
  let names :=
    ["VARSYNC_DEBOUNCE_MS", "VARSYNC_CLIENT_DEBOUNCE_MS", "VARSYNC_MAX_FRAME", "VARSYNC_SESSION"]
  let found ← names.mapM fun name ↦ return (name, ← IO.getEnv name)
  return Settings.ofLookup fun name ↦ (Entries.find? name found).join

/-- Runs the program. -/
def run : IO UInt32 := do
  let settings ← readSettings
  let input ← IO.getStdin
  let output ← IO.getStdout
  let next ← IO.asTask (readFrame input settings.maxFrame)
  let h ← serve input output settings.maxFrame (Host.start settings) next
  return h.finish (← IO.monoMsNow)

end ReactiveVars.Program

/-- The entry point. -/
def main : IO UInt32 := ReactiveVars.Program.run
