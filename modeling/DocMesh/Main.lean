/-
# The program

Runs the command that the arguments give, in the surroundings of this host, and prints what comes of it.
-/
import DocMesh.Cli.Command
import Std.Time.DateTime.Timestamp

namespace DocMesh.Program

/-- The reading of the wall clock, in milliseconds since the Unix epoch. -/
def wallClock : IO Int64 :=
  return Int64.ofInt (← Std.Time.Timestamp.now).toMillisecondsSinceUnixEpoch.val

/-- The surroundings of a host that stands alone. -/
def surroundings : IO (Command.Surroundings Empty) := do
  let seed ← IO.rand 0 (0x7fffffff)
  return {
    network := .unreachable
    bind := fun port => .ok port
    now := ← wallClock
    draw := fun n => (randNat (mkStdGen (seed + n)) 0 (0x7fffffff)).1 }

/-- Waits until the program is interrupted. -/
partial def waitForever : IO Unit := do
  IO.sleep 60000
  waitForever

/-- Waits for the given time. -/
def await : Duration → IO Unit
  | .seconds n => IO.sleep (UInt32.ofNat (1000 * n))
  | .unlimited => waitForever

end DocMesh.Program

open DocMesh Program in
/-- Runs the program. -/
def main (args : List String) : IO UInt32 := do
  let result := ProgramResult.ofArguments (← surroundings) args
  IO.eprint (result.message.getD "")
  await result.duration
  IO.print (result.output.getD "")
  return result.status.toUInt32
