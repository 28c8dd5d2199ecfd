import Rerun.Host
import Rerun.Schema

/-!
# A faulty tool

A tool that ruins one register: it puts an instruction that overwrites the register in front of
the last instruction of every block. The fault lies in the instrumented run only, so a checker
that comes after the tool must find it.
-/

namespace Rerun

open X64

/-- A tool that overwrites one register. -/
structure Clobber where
  field : String
  instruction : Instruction
deriving DecidableEq, Repr

namespace Clobber

/-- What a general register is overwritten with. -/
def pattern : Word := 0x5a5a5a5a5a5a5a5a

/-- An instruction that lets control go on and does not touch memory, written as its name and its
operands are. -/
def plainInstruction (m : Mnemonic) (operands : List (Operand × String)) : Instruction where
  mnemonic := m
  flow := .next
  operands := operands.map (·.1)
  accesses := []
  text := Text.lower m.name ++ " " ++ String.intercalate "," (operands.map (·.2))

/-- A register operand with its text. -/
def registerOperand (r : Register) : Operand × String := (.register r, Text.lower r.name)

/-- The accumulator with its text. -/
def accumulator : Operand × String := registerOperand (.gpr (.full Gpr.accumulator))

/-- Loads the pattern into a general register. -/
def loadPattern (n : Fin 16) : Instruction :=
  plainInstruction .mov
    [registerOperand (.gpr (.full n)), (.immediate .b64 pattern, "5A5A5A5A5A5A5A5Ah")]

/-- The instruction that overwrites a slot of x86-64: general registers get a pattern, the flags
those of two equal numbers, mask registers the content of `rax`, and the first sixteen vector
registers ones in their low 128 bits. The other slots cannot be reached by one instruction. -/
def instruction? : Slot → Option Instruction
  | .gpr i => if h : i.val < 16 then some (loadPattern ⟨i, h⟩) else none
  | .sp => some (loadPattern Gpr.stackPointer)
  | .flags => some (plainInstruction .cmp [accumulator, accumulator])
  | .extra k => some (plainInstruction .kmovq [registerOperand (.mask k), accumulator])
  | .simd i =>
    if i.val < 16 then
      some (plainInstruction .pcmpeqd
        [registerOperand (.vector .xmm i), registerOperand (.vector .xmm i)])
    else none

/-- The name and place of the tool, before the checkers. -/
def defaultPriority : Priority := ⟨"clobber", 100⟩

/-- The tool for a field of x86-64 named in any letter case. -/
def ofField? (name : String) : Option Clobber := do
  let f ← Arch.x64.field? name
  return ⟨Text.lower name, ← instruction? f.slot⟩

/-- Puts the instruction in front of the program's last one; `false` if the program has none. -/
def apply (c : Clobber) : Action Draft Bool := do
  match (← get).block.lastApp? with
  | none => return false
  | some last => return (← Draft.insertBefore last.id (← Draft.tool c.instruction)).isSome

/-- The tool as a client of the host. -/
def client (c : Clobber) : Client where
  started := pure ()
  ended := pure ()
  built _ _ _ := do
    if ← c.apply then Action.say .trace .clobber ("clobbered " ++ c.field ++ " in block")

end Clobber

end Rerun
