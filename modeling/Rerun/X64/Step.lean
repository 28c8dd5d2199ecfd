import Rerun.X64.Effect
import Rerun.X64.Flags

/-!
# Running one instruction

The interpreter covers instructions that work on registers alone. Whatever it has no exact rule
for is refused: an operand in memory, an unknown operation, a register of another class. An
instruction that hands control on ends the block; where it leads is reported and not followed.
-/

namespace Rerun.X64

/-- Why the interpreter refuses to go on. -/
inductive EmulationError
  | instruction (m : Mnemonic)
  | operand (m : Mnemonic) (index : Nat) (kind : String)
  | register (r : Register)
  | arch (runs : Arch)
deriving DecidableEq, Repr

namespace EmulationError

/-- The text shown for a refusal. -/
def message : EmulationError → String
  | instruction m => "unsupported instruction: " ++ m.name
  | operand m index kind =>
    "unsupported operand " ++ toString index ++ " (" ++ kind ++ ") of " ++ m.name
  | register r => "unsupported register " ++ r.name
  | arch runs => "cannot execute x86-64 code on a " ++ runs.name ++ " thread"

end EmulationError

/-- How control leaves a block. -/
inductive BlockExit
  /-- The block ran to its end. -/
  | fallThrough
  /-- A branch or a call, to a known address if it is direct. -/
  | branch (target : Option Word)
  /-- A return. -/
  | ret
deriving DecidableEq, Repr

/-- What one instruction leads to. -/
inductive Step
  | proceed
  | leave (e : BlockExit)
deriving DecidableEq, Repr

/-- A computation on the register file that may be refused. What it wrote before stays. -/
abbrev Emulation := EStateM EmulationError RegisterFile

namespace Emulation

/-- Register operand `n`. -/
def register (i : Instruction) (n : Nat) : Emulation Register :=
  match i.operand n with
  | .register r => pure r
  | o => throw (.operand i.mnemonic n o.kind)

/-- The content of a general register or a mask register. -/
def read (r : Register) : Emulation Word := do
  match r with
  | .gpr g => return (← get).readGpr g
  | .mask n => return (← get).extra.get n
  | _ => throw (.register r)

/-- Writes to a general register or a mask register. -/
def write (r : Register) (w : Word) : Emulation Unit :=
  match r with
  | .gpr g => modify (·.writeGpr g w)
  | .mask n => modify (·.setWord (.extra n) w)
  | _ => throw (.register r)

/-- The value of operand `n`: a register's content or an immediate. -/
def operand (i : Instruction) (n : Nat) : Emulation Word :=
  match i.operand n with
  | .register r => read r
  | .immediate _ value => pure value
  | o => throw (.operand i.mnemonic n o.kind)

/-- Copies operand 1 to operand 0. -/
def move (i : Instruction) : Emulation Unit := do
  let dst ← register i 0
  let v ← operand i 1
  write dst v

/-- Combines operands 0 and 1 at the width of operand 0 and sets the flags; the result goes back
to operand 0 if `keeps` holds. -/
def binary (i : Instruction) (keeps : Bool)
    (op : {w : Nat} → BitVec w → BitVec w → BitVec w × Flags) : Emulation Unit := do
  let dst ← register i 0
  let a ← read dst
  let b ← operand i 1
  let (r, f) := op (a.setWidth dst.bits) (b.setWidth dst.bits)
  modify (·.updateFlags f Flags.arithmetic)
  if keeps then write dst (r.setWidth 64)

/-- Replaces operand 0 by a function of it and sets the flags selected by `affected`. -/
def unary (i : Instruction) (affected : Word)
    (op : {w : Nat} → BitVec w → BitVec w × Flags) : Emulation Unit := do
  let dst ← register i 0
  let a ← read dst
  let (r, f) := op (a.setWidth dst.bits)
  modify (·.updateFlags f affected)
  write dst (r.setWidth 64)

/-- The content of a register that an address may leave out. -/
def readPart : Option Register → Emulation Word
  | none => pure 0
  | some r => read r

/-- Writes an address, not what stands there, to operand 0. -/
def loadAddress (i : Instruction) : Emulation Unit := do
  let dst ← register i 0
  match i.operand 1 with
  | .memory a =>
    if a.ipRelative then throw (.operand i.mnemonic 1 (Operand.memory a).kind)
    let base ← readPart a.base
    let index ← readPart a.index
    write dst (base + index * a.scale + a.displacement)
  | o => throw (.operand i.mnemonic 1 o.kind)

/-- Exchanges operands 0 and 1. -/
def exchange (i : Instruction) : Emulation Unit := do
  let a ← register i 0
  let b ← register i 1
  let va ← read a
  let vb ← read b
  write a vb
  write b va

/-- The slot of operand `n`, a 128-bit vector register. -/
def lane (i : Instruction) (n : Nat) : Emulation (Fin 32) := do
  let r ← register i n
  match r with
  | .vector .xmm k => pure k
  | _ => throw (.register r)

/-- Combines the low 128 bits of operands 0 and 1 into those of operand 0; the bits above stay. -/
def vector (i : Instruction) (op : BitVec 128 → BitVec 128 → BitVec 128) : Emulation Unit := do
  let dst ← lane i 0
  let src ← lane i 1
  modify fun file =>
    let d := file.simd.get dst
    let s := file.simd.get src
    file.setSimd dst (d.extractLsb' 128 384 ++ op (d.setWidth 128) (s.setWidth 128))

end Emulation

/-- The sums of the two 64-bit halves. -/
def addQuads (a b : BitVec 128) : BitVec 128 :=
  (a.extractLsb' 64 64 + b.extractLsb' 64 64) ++ (a.extractLsb' 0 64 + b.extractLsb' 0 64)

/-- All ones in each 32-bit quarter in which `a` and `b` are equal, zeros in the others. -/
def equalDoubles (a b : BitVec 128) : BitVec 128 :=
  quarter 3 ++ quarter 2 ++ quarter 1 ++ quarter 0
where
  quarter (k : Nat) : BitVec 32 :=
    if a.extractLsb' (32 * k) 32 = b.extractLsb' (32 * k) 32 then BitVec.allOnes 32 else 0

namespace Instruction

/-- Where a direct branch leads. -/
def target (i : Instruction) : Option Word :=
  match i.operand 0 with
  | .near _ t => some t
  | _ => none

/-- What an instruction that lets control go on does to the registers. -/
def compute (i : Instruction) : Emulation Unit :=
  match i.mnemonic with
  | .nop => pure ()
  | .mov | .kmovq => .move i
  | .add => .binary i true addition
  | .sub => .binary i true subtraction
  | .cmp => .binary i false subtraction
  | .and => .binary i true fun a b => bitwise (a &&& b)
  | .or => .binary i true fun a b => bitwise (a ||| b)
  | .xor => .binary i true fun a b => bitwise (a ^^^ b)
  | .test => .binary i false fun a b => bitwise (a &&& b)
  | .inc => .unary i (Flags.arithmetic &&& ~~~Flags.carryBit) fun a => addition a 1
  | .dec => .unary i (Flags.arithmetic &&& ~~~Flags.carryBit) fun a => subtraction a 1
  | .neg => .unary i Flags.arithmetic fun a => subtraction 0 a
  | .not => .unary i 0 fun a => bitwise (~~~a)
  | .lea => .loadAddress i
  | .xchg => .exchange i
  | .movdqa | .movdqu | .movaps | .movups => .vector i fun _ s => s
  | .pxor | .xorps => .vector i fun d s => d ^^^ s
  | .paddq => .vector i addQuads
  | .pcmpeqd => .vector i equalDoubles
  | m => throw (.instruction m)

/-- Runs one instruction. -/
def step (i : Instruction) : Emulation Step :=
  match i.flow with
  | .next => do
    i.compute
    pure .proceed
  | .ret => pure (.leave .ret)
  | .unconditionalBranch | .conditionalBranch | .call => pure (.leave (.branch i.target))
  | .indirectBranch | .indirectCall => pure (.leave (.branch none))
  | .interrupt | .transaction | .exception => throw (.instruction i.mnemonic)

end Instruction

end Rerun.X64
