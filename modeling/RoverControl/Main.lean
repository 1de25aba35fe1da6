import RoverControl.Cli.Session

/-!
# The program

The program serves one connection, which its standard input and output stand for, and logs to
standard error.  Its arguments are the options of `Cli.Options`.
-/

namespace RoverControl

/-- A visit from this machine, whose request has arrived in full. -/
def localVisit (request : Bytes) : Visit :=
  ⟨.ready, .ok (some (.v4 127 0 0 1)), [.ok request], []⟩

/-- Everything that is yet to come from a stream. -/
partial def readAll (stream : IO.FS.Stream) (read : ByteArray) : IO ByteArray := do
  let piece ← stream.read 4096
  if piece.isEmpty then return read
  readAll stream (read ++ piece)

/-- Runs a session with these visits, and shows what it leaves behind. -/
def runSession (args : List Bytes) (visits : List Cli.TimedVisit) : IO UInt32 := do
  let t := Cli.session args ⟨none, false, visits⟩
  (← IO.getStdout).write ⟨t.answers.flatten.toArray⟩
  (← IO.getStderr).write ⟨t.log.toArray⟩
  return if t.success then 0 else 1

end RoverControl

open RoverControl in
def main (args : List String) : IO UInt32 := do
  let args := args.map fun arg => arg.toUTF8.toList
  if (Cli.session args ⟨none, false, []⟩).success then
    let request ← readAll (← IO.getStdin) ByteArray.empty
    runSession args [⟨localVisit request.toList, 0⟩]
  else runSession args []
