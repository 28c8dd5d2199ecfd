import Rerun.RegisterFile

/-!
# x86-64 registers

The names by which instructions address the register file. General registers come in four
widths and, for the first four, as their second byte too; they all lie in sixteen 64-bit
registers, of which number 4 is the stack pointer and has a slot of its own. Mask registers and
vector registers address one slot each. A write of 32 bits clears the upper half of the
register, narrower writes leave the other bits alone.
-/

namespace Rerun.X64

/-- The width of a general register. -/
inductive Width
  | byte
  | word
  | dword
  | qword
deriving DecidableEq, Repr

namespace Width

/-- The width in bits. -/
def bits : Width → Nat
  | byte => 8
  | word => 16
  | dword => 32
  | qword => 64

/-- A word with ones in the low bits of this width. -/
def mask (w : Width) : Word := (BitVec.allOnes w.bits).setWidth 64

end Width

/-- A general register: the low part of one of the sixteen, or the second byte of one of the
first four. -/
inductive Gpr
  | low (number : Fin 16) (width : Width)
  | high (number : Fin 4)
deriving DecidableEq, Repr

namespace Gpr

/-- The 64-bit register that this one is part of. -/
def number : Gpr → Fin 16
  | low n _ => n
  | high n => n.castLE (by decide)

/-- How many bits the register has. -/
def width : Gpr → Width
  | low _ w => w
  | high _ => .byte

/-- The lowest bit of the 64-bit register that belongs to this one. -/
def shift : Gpr → Nat
  | low _ _ => 0
  | high _ => 8

/-- The names of the sixteen registers at a width. -/
def names : Width → List String
  | .qword => ["RAX", "RCX", "RDX", "RBX", "RSP", "RBP", "RSI", "RDI",
      "R8", "R9", "R10", "R11", "R12", "R13", "R14", "R15"]
  | .dword => ["EAX", "ECX", "EDX", "EBX", "ESP", "EBP", "ESI", "EDI",
      "R8D", "R9D", "R10D", "R11D", "R12D", "R13D", "R14D", "R15D"]
  | .word => ["AX", "CX", "DX", "BX", "SP", "BP", "SI", "DI",
      "R8W", "R9W", "R10W", "R11W", "R12W", "R13W", "R14W", "R15W"]
  | .byte => ["AL", "CL", "DL", "BL", "SPL", "BPL", "SIL", "DIL",
      "R8L", "R9L", "R10L", "R11L", "R12L", "R13L", "R14L", "R15L"]

/-- The name of a general register. -/
def name : Gpr → String
  | low n w => (names w).getD n ""
  | high n => ["AH", "CH", "DH", "BH"].getD n ""

/-- Every general register. -/
def all : List Gpr :=
  ([Width.byte, .word, .dword, .qword].flatMap fun w => (List.finRange 16).map (low · w))
    ++ (List.finRange 4).map high

/-- The 64-bit register of a number. -/
def full (n : Fin 16) : Gpr := low n .qword

/-- The number of the accumulator. -/
def accumulator : Fin 16 := 0

/-- The number of the stack pointer. -/
def stackPointer : Fin 16 := 4

end Gpr

/-- The width of a vector register. -/
inductive VectorWidth
  | xmm
  | ymm
  | zmm
deriving DecidableEq, Repr

namespace VectorWidth

/-- The width in bytes. -/
def bytes : VectorWidth → Nat
  | xmm => 16
  | ymm => 32
  | zmm => 64

/-- What the names of the registers begin with. -/
def stem : VectorWidth → String
  | xmm => "XMM"
  | ymm => "YMM"
  | zmm => "ZMM"

end VectorWidth

/-- A register as an instruction names it. Segment, control, debug and floating-point registers
are known by name only. -/
inductive Register
  | none
  | gpr (r : Gpr)
  | mask (n : Fin 8)
  | vector (width : VectorWidth) (n : Fin 32)
  | other (name : String)
deriving DecidableEq, Repr

namespace Register

/-- The name of a register. -/
def name : Register → String
  | none => "None"
  | gpr r => r.name
  | mask n => "K" ++ toString n.val
  | vector w n => w.stem ++ toString n.val
  | other name => name

/-- Every register that addresses a slot. -/
def addressable : List Register :=
  Gpr.all.map gpr ++ (List.finRange 8).map mask
    ++ [VectorWidth.xmm, .ymm, .zmm].flatMap fun w => (List.finRange 32).map (vector w)

/-- The register of a name. -/
def ofName (name : String) : Register :=
  ((none :: addressable).find? (·.name == name)).getD (other name)

/-- How many bits an integer operation on the register works on. -/
def bits : Register → Nat
  | gpr r => r.width.bits
  | _ => 64

/-- The number of a mask register. -/
def mask? : Register → Option (Fin 8)
  | mask n => some n
  | _ => Option.none

/-- The slot and the width in bytes of a vector register. -/
def vector? : Register → Option (Fin 32 × Nat)
  | vector w n => some (n, w.bytes)
  | _ => Option.none

end Register

end Rerun.X64

namespace Rerun.RegisterFile

open X64

/-- The content of a 64-bit general register. -/
def full (file : RegisterFile) (n : Fin 16) : Word :=
  if n = Gpr.stackPointer then file.sp else file.gpr[n.castLE (by decide : 16 ≤ 32)]

/-- Replaces the content of a 64-bit general register. -/
def setFull (file : RegisterFile) (n : Fin 16) (w : Word) : RegisterFile :=
  if n = Gpr.stackPointer then { file with sp := w }
  else { file with gpr := file.gpr.set (n.castLE (by decide : 16 ≤ 32)) w }

/-- The bits of a general register. -/
def readGpr (file : RegisterFile) (r : Gpr) : Word :=
  (file.full r.number >>> r.shift) &&& r.width.mask

/-- Writes the low bits of `w` into a general register. -/
def writeGpr (file : RegisterFile) (r : Gpr) (w : Word) : RegisterFile :=
  match r.width with
  | .qword => file.setFull r.number w
  | .dword => file.setFull r.number (w &&& Width.mask .dword)
  | _ =>
    let mask := r.width.mask <<< r.shift
    file.setFull r.number ((file.full r.number &&& ~~~mask) ||| ((w <<< r.shift) &&& mask))

/-- The bits of a register, if it is a general one. -/
def readGeneral (file : RegisterFile) : Register → Option Word
  | .gpr r => some (file.readGpr r)
  | _ => none

/-- Writes to a register if it is a general one; the first component says whether it is. -/
def writeGeneral (file : RegisterFile) (r : Register) (w : Word) : Bool × RegisterFile :=
  match r with
  | .gpr r => (true, file.writeGpr r w)
  | _ => (false, file)

end Rerun.RegisterFile
