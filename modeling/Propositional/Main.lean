import Propositional.CommandLine.Run
import Propositional.Text.Tenths

/-!
# The command line program
-/

open Propositional

/-- Answers the command line, and exits with the code of the answer. -/
def main (arguments : List String) : IO UInt32 := do
  let started ← IO.monoNanosNow
  match CommandLine.run arguments with
  | .error failure =>
    IO.eprintln failure.message
    return 1
  | .ok response =>
    IO.print response.output
    let finished ← IO.monoNanosNow
    let elapsed := Text.tenths ((finished - started).toFloat / 1000000.0)
    IO.eprint (response.diagnostics elapsed)
    return response.exitCode.toUInt32
