import Rerun.Activation
import Rerun.Clobber
import Rerun.Command.Code
import Rerun.Command.Options
import Rerun.Execution
import Rerun.SplitMix

/-!
# The command

The command decodes one block, sets up a checker on a fresh host, behind a faulty tool if one is
asked for, and runs the block from one random register file after another until a run finds a
mismatch. The decoder is given from outside.
-/

namespace Rerun.Command

/-- What a decoder finds at a place in the machine code. -/
inductive Decoded
  | valid (i : X64.Instruction) (length : Nat)
  | invalid (address : Word)
deriving DecidableEq, Repr

/-- A decoder: the instructions in some bytes, one after another, if the first byte has the given
address. -/
abbrev Decoder := List Byte → Word → List Decoded

/-- Why the command gives up. -/
inductive Failure
  | code (e : CodeError)
  | invalidInstruction (address : Word)
  | cannotClobber (field : String)
  | clobberRefused
  | activation
  | noChecker
  | teardown
  | emulation (e : X64.EmulationError)
deriving DecidableEq, Repr

namespace Failure

/-- The text shown for a failure. -/
def message : Failure → String
  | code e => e.message
  | invalidInstruction address => "invalid instruction at " ++ Hex.word address
  | cannotClobber field => "cannot clobber " ++ field
  | clobberRefused => "clobber client registration failed"
  | activation => "checker activation failed"
  | noChecker => "checker not active"
  | teardown => "checker teardown failed"
  | emulation e => e.message

end Failure

/-- The instructions up to the first that may hand control on, and how many bytes they take. -/
def firstBlock : List Decoded → Except Failure (List X64.Instruction × Nat)
  | [] => .ok ([], 0)
  | .invalid address :: _ => .error (.invalidInstruction address)
  | .valid i length :: rest =>
    if i.flow = .next then do
      let (is, n) ← firstBlock rest
      return (i :: is, length + n)
    else .ok ([i], length)

/-- What the command works on: the host, the next identity of an entry, and what it has
printed. -/
structure Console where
  host : Host
  nextId : EntryId
  printed : String

namespace Console

/-- Before anything has happened. -/
def new : Console := ⟨.new, 0, ""⟩

/-- Prints a text. -/
def print (text : String) : Action Console Unit :=
  modify fun c => { c with printed := c.printed ++ text }

/-- Prints a line. -/
def printLine (text : String) : Action Console Unit := print (text ++ "\n")

/-- Acts on the host. -/
def onHost {α : Type} (x : Action Host α) : Action Console α := fun c =>
  let o := x c.host
  ⟨o.result, { c with host := o.state }, o.journal⟩

/-- Builds a block from nothing. -/
def build (x : Action Draft Unit) : Action Console Block := fun c =>
  let o := x ⟨[], c.nextId⟩
  ⟨o.result.map fun _ => o.state.block, { c with nextId := o.state.nextId }, o.journal⟩

/-- Runs a block on a thread and catches a fault. -/
def attempt (b : Block) (t : Thread) : Action Console (Except Fault Ending × Thread) := fun c =>
  let o := Thread.execute b t
  ⟨.ok (o.result, o.state), c, o.journal⟩

end Console

/-- How control left a block, in the words of the messages. -/
def exitText : X64.BlockExit → String
  | .fallThrough => "FallThrough"
  | .ret => "Return"
  | .branch none => "Branch \x7b target: None \x7d"
  | .branch (some t) => "Branch \x7b target: Some(" ++ toString t.toNat ++ ") \x7d"

open Console

/-- What became of one run. -/
inductive RunEnd
  | passed
  | mismatch
  | failed (e : X64.EmulationError)
deriving DecidableEq, Repr

/-- Run number `n`, from the register file of its own seed. The first run also prints the
block. -/
def runOnce (o : Options) (is : List X64.Instruction) (checker : Checker) (n : Nat) :
    Action Console RunEnd := do
  let seed := o.seed + BitVec.ofNat 64 n
  let t ← onHost (Host.spawn .x64)
  let t := t.setRegisters (.random .x64 seed)
  let h := (← get).host
  let b ← build do
    Draft.setBlock (← Draft.appAll is)
    h.process t false true
  if n = 0 then print (← Action.ofExcept (checker.describe b))
  let (ending, t) ← attempt b t
  match ending with
  | .ok (.exit exit) =>
    Action.say .debug .command
      ("seed " ++ toString seed.toNat ++ ": block left via " ++ exitText exit)
    let _ ← h.exit.on t
    return .passed
  | .ok (.refused e) => return .failed e
  | .error (.mismatch m) =>
    printLine ("seed " ++ toString seed.toNat ++ ": " ++ m.message)
    return .mismatch
  | .error e => Action.fail e

/-- The runs from number `n` on, `count` of them, until one does not pass. -/
def runFrom (o : Options) (is : List X64.Instruction) (checker : Checker) (n : Nat) :
    (count : Nat) → Action Console RunEnd
  | 0 => return .passed
  | count + 1 => do
    match ← runOnce o is checker n with
    | .passed => runFrom o is checker (n + 1) count
    | e => return e

/-- Registers the faulty tool, if one is asked for. -/
def addClobber (o : Options) : Action Console (Except Failure Unit) := do
  match o.clobber with
  | none => return .ok ()
  | some field =>
    match Clobber.ofField? field with
    | none => return .error (.cannotClobber field)
    | some c =>
      let added ← onHost (modifyGet (Host.addClient · ⟨Clobber.defaultPriority, c.client⟩))
      return if added then .ok () else .error .clobberRefused

/-- Checks the block `is`: the value says whether all runs have passed. -/
def check (o : Options) (is : List X64.Instruction) : Action Console (Except Failure Bool) := do
  if let .error e ← addClobber o then return .error e
  let (status, a) ← onHost (Activation.new (.new .x64)).activate
  if status ≠ .success then return .error .activation
  match a.checker with
  | none => return .error .noChecker
  | some checker =>
    match ← runFrom o is checker 0 o.runs with
    | .failed e => return .error (.emulation e)
    | e =>
      let (status, _) ← onHost a.deactivate
      return if status = .success then .ok (e = .passed) else .error .teardown

/-- Decodes the block and reports what is left behind it. -/
def decode (o : Options) (decoder : Decoder) :
    Action Console (Except Failure (List X64.Instruction)) := do
  match readCode o.hex with
  | .error e => return .error (.code e)
  | .ok bytes =>
    match firstBlock (decoder bytes o.address) with
    | .error e => return .error e
    | .ok (is, n) =>
      if n < bytes.length then
        Action.say .warn .command
          ("ignoring " ++ toString (bytes.length - n) ++ " bytes after the block terminator")
      return .ok is

/-- Prints whether the block can be checked. -/
def announce (is : List X64.Instruction) : Action Console Unit := do
  let b ← build do Draft.setBlock (← Draft.appAll is)
  printLine <| match b.eligibility with
    | .eligible => "block is side-effect free"
    | .sideEffect _ effect =>
      "block has side effects (" ++ effect.name ++ "), it will not be checked"

/-- The work of the command. -/
def run (o : Options) (decoder : Decoder) : Action Console (Except Failure Bool) := do
  match ← decode o decoder with
  | .error e => return .error e
  | .ok is =>
    announce is
    check o is

end Rerun.Command
