import PenScript.CommandLine
import PenScript.Png

/-!
# The program

Runs the command line on the real system.
-/

namespace PenScript

/-- The reason of a failed system call. -/
def FileError.ofSystem : IO.Error → FileError
  | .noFileOrDirectory .. => .missing
  | e => .other (toString e)

/-- Random bits from a seed: the throw with number `k` has a generator of its own. -/
def seededDice (seed k : Nat) : Nat :=
  (randNat (mkStdGen (seed + k)) 0 0xFFFFFFFFFFFFFFFFFFFFFFFFFFFFFFFF).1

/-- Sleeps for some milliseconds, as many of them as fit into one call at a time. -/
def sleepFor (n : Nat) : IO Unit := do
  for _ in [0 : n / 0xFFFFFFFF] do
    IO.sleep 0xFFFFFFFF
  IO.sleep (UInt32.ofNat (n % 0xFFFFFFFF))

/-- The real system. -/
def Host.system : Host IO where
  read path := do
    try
      return .ok (← IO.FS.readBinFile path).data
    catch e =>
      return .error (.ofSystem e)
  write path bytes := do
    try
      IO.FS.writeBinFile path ⟨bytes⟩
      return .ok ()
    catch e =>
      return .error (.ofSystem e)
  print s := do (← IO.getStdout).putStr s
  note s := do (← IO.getStderr).putStr s
  wait
    | .ms n => sleepFor n
    | .endless => do
      repeat
        sleepFor 1000
  dice := do return seededDice (← IO.rand 0 0xFFFFFFFF)
  decode bytes := return (Png.decode bytes).mapError Png.DecodeError.message
  encode canvas := return (Png.encode canvas).mapError Png.EncodeError.message

end PenScript

/-- Runs the command line. -/
def main (args : List String) : IO UInt32 :=
  PenScript.CommandLine.perform PenScript.Host.system args
