import Rerun.RegisterFile
import Rerun.Text.Case

/-!
# Register schemas

An architecture's schema lists the registers that count, each under its name, in the order in
which they are compared.
-/

namespace Rerun

/-- A register that counts, under its name. -/
structure Field where
  name : String
  slot : Slot
deriving DecidableEq, Repr

/-- Names `stem0`, `stem1`, … for the slots of one kind. -/
def Field.numbered {n : Nat} (stem : String) (slot : Fin n → Slot) : List Field :=
  (List.finRange n).map fun i => ⟨stem ++ toString i.val, slot i⟩

/-- The registers of x86-64: the general ones in the order of the calling convention, the flags,
the masks, the stack pointer, and the vectors. -/
def x64Fields : List Field :=
  [⟨"rdi", .gpr 7⟩, ⟨"rsi", .gpr 6⟩, ⟨"rbp", .gpr 5⟩, ⟨"rax", .gpr 0⟩, ⟨"rbx", .gpr 3⟩,
    ⟨"rcx", .gpr 1⟩, ⟨"rdx", .gpr 2⟩, ⟨"r8", .gpr 8⟩, ⟨"r9", .gpr 9⟩, ⟨"r10", .gpr 10⟩,
    ⟨"r11", .gpr 11⟩, ⟨"r12", .gpr 12⟩, ⟨"r13", .gpr 13⟩, ⟨"r14", .gpr 14⟩, ⟨"r15", .gpr 15⟩,
    ⟨"rflags", .flags⟩]
  ++ Field.numbered "k" .extra ++ [⟨"rsp", .sp⟩] ++ Field.numbered "zmm" .simd

/-- The registers of AArch64: `x0` to `x29`, the link register, the flags, the stack pointer, and
the vectors. -/
def arm64Fields : List Field :=
  Field.numbered "x" (fun i : Fin 30 => .gpr (i.castLE (by decide)))
  ++ [⟨"lr", .gpr 30⟩, ⟨"nzcv", .flags⟩, ⟨"sp", .sp⟩] ++ Field.numbered "v" .simd

namespace Arch

/-- The fields of an architecture in the order of comparison. -/
def schema : Arch → List Field
  | x64 => x64Fields
  | arm64 => arm64Fields

/-- The field of a name, in any letter case. -/
def field? (arch : Arch) (name : String) : Option Field :=
  arch.schema.find? fun f => Text.sameLetters f.name name

end Arch

end Rerun
