import Bella.Command.Basic

/-!
# The program

Hands the arguments to the command and writes what it leaves behind.
-/

namespace Bella

/-- The message of a halt that is no error of the language. -/
def Halt.message : Halt → String
  | .error e => e.message
  | .defect d => d.message
  | .overflow => "nested too deeply"
  | .unfinished => "a loop did not end"

end Bella

/-- Runs a sample program. -/
def main (arguments : List String) : IO UInt32 := do
  let stamp := toString (← IO.monoMsNow)
  match Bella.Command.perform stamp Bella.amplePasses Bella.Command.Samples.bundled arguments with
  | .ok outcome =>
    IO.print outcome.output
    IO.eprint outcome.errors
    return UInt32.ofNat outcome.status
  | .error halt =>
    IO.eprintln halt.message
    return 1
