import Rerun.Block
import Rerun.X64.Step

/-!
# Running a block

A thread runs a block entry by entry from its registers: labels do nothing, calls run on the
thread, machine instructions are interpreted until one hands control on. A refusal by the
interpreter ends the run as an answer; a fault in a call ends it as a fault.
-/

namespace Rerun

/-- How a run of a block ends if no call faults. -/
inductive Ending
  /-- Control leaves the block. -/
  | exit (e : X64.BlockExit)
  /-- An instruction is refused. -/
  | refused (e : X64.EmulationError)
deriving DecidableEq, Repr

namespace Thread

/-- Interprets one instruction on the registers of a thread. -/
def step (i : X64.Instruction) : Action Thread (Except X64.EmulationError X64.Step) :=
  modifyGet fun t =>
    match i.step.run t.registers with
    | .ok s file => (.ok s, t.setRegisters file)
    | .error e file => (.error e, t.setRegisters file)

/-- Runs the entries of a block on a thread that can. -/
def run : Block → Action Thread Ending
  | [] => pure (.exit .fallThrough)
  | e :: rest =>
    match e.content with
    | .label => run rest
    | .call c => do
      c.invoke
      run rest
    | .machine i => do
      match ← step i with
      | .error e => return .refused e
      | .ok (.leave e) => return .exit e
      | .ok .proceed => run rest

/-- Runs a block. Threads of another architecture are refused. -/
def execute (b : Block) : Action Thread Ending := do
  let t ← get
  if t.arch = .x64 then run b else return .refused (.arch t.arch)

end Thread

end Rerun
