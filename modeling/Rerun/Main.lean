import Rerun.Command.Disassembly
import Rerun.Command.Report

/-!
# The program

The arguments say what to do; the instructions of the block come from a decoder over standard
input. Both output channels and the exit code are written as the report says.
-/

/-- Runs the command. The disassembly is read only if the arguments lead to a run. -/
def main (arguments : List String) : IO UInt32 := do
  let text ← match Rerun.Command.Options.ofArguments arguments with
    | .ok _ => do
      let input ← IO.getStdin
      input.readToEnd
    | .error _ => pure ""
  let r := Rerun.Command.report arguments fun _ _ => Rerun.Command.Disassembly.read text
  for line in r.output do
    IO.println line
  for line in r.errors do
    IO.eprintln line
  return r.code.toUInt32
