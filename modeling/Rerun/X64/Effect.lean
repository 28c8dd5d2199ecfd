import Rerun.X64.Instruction

/-!
# What an instruction does besides computing

The questions that decide whether an instruction may run twice and whether it ends a block.
Memory that is written implicitly, by a push or a call, counts as written.
-/

namespace Rerun.X64.Instruction

/-- The interrupt that asks the system for a service. -/
def systemCallGate : Byte := 0x80

/-- Whether the instruction may write memory. -/
def writesMemory (i : Instruction) : Bool := i.accesses.any Access.writes

/-- Whether the instruction raises an interrupt. -/
def isInterrupt (i : Instruction) : Bool := i.flow == .interrupt

/-- Whether the low byte of the first immediate operand is `b`. -/
def hasImmediateByte (i : Instruction) (b : Byte) : Bool :=
  match i.operand 0 with
  | .immediate _ value => value.setWidth 8 == b
  | _ => false

/-- Whether the instruction asks the system for a service. -/
def isSystemCall (i : Instruction) : Bool :=
  match i.mnemonic with
  | .syscall | .sysenter => true
  | .int => i.hasImmediateByte systemCallGate
  | _ => false

/-- Whether control may go elsewhere by a branch, a jump or a call. -/
def isTransfer (i : Instruction) : Bool :=
  (match i.flow with
    | .unconditionalBranch | .conditionalBranch | .indirectBranch | .call | .indirectCall
    | .transaction => true
    | _ => false) && !i.isSystemCall

/-- Whether the instruction is a return. -/
def isReturn (i : Instruction) : Bool := i.flow == .ret

/-- Whether the instruction ends a block by handing control on. -/
def isTerminator (i : Instruction) : Bool := i.isTransfer || i.isReturn

end Rerun.X64.Instruction
