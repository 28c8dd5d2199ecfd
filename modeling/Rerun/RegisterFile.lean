import Rerun.Fault
import Rerun.Text.Hex

/-!
# Register files

A register file stores the registers of either architecture: 32 general registers, the flags,
8 mask registers, the stack pointer and 32 vector registers of 512 bits. A `Slot` names one of
them. A `Location` names one by number, as a caller writes it, and may point past the end.
-/

namespace Rerun

/-- A vector register. -/
abbrev Simd := BitVec 512

/-- One of the registers of a file. -/
inductive Slot
  | gpr (i : Fin 32)
  | flags
  | extra (i : Fin 8)
  | sp
  | simd (i : Fin 32)
deriving DecidableEq, Repr

/-- A register named by a number that nobody has checked. -/
inductive Location
  | gpr (i : Nat)
  | flags
  | extra (i : Nat)
  | sp
  | simd (i : Nat)
deriving DecidableEq, Repr

/-- The location that names a slot. -/
def Slot.location : Slot → Location
  | gpr i => .gpr i
  | flags => .flags
  | extra i => .extra i
  | sp => .sp
  | simd i => .simd i

/-- The slot at a location, or the fault of an index past the end. -/
def Location.slot : Location → Except Fault Slot
  | gpr i => if h : i < 32 then .ok (.gpr ⟨i, h⟩) else .error (.indexOutOfBounds 32 i)
  | flags => .ok .flags
  | extra i => if h : i < 8 then .ok (.extra ⟨i, h⟩) else .error (.indexOutOfBounds 8 i)
  | sp => .ok .sp
  | simd i => if h : i < 32 then .ok (.simd ⟨i, h⟩) else .error (.indexOutOfBounds 32 i)

theorem Location.slot_location (s : Slot) : s.location.slot = .ok s := by
  cases s <;> simp [Slot.location, Location.slot]

/-- What a slot holds: a word, or the bytes of a vector register, least significant first. -/
inductive Value
  | word (w : Word)
  | vector (bytes : List Byte)
deriving DecidableEq, Repr

namespace Value

/-- A word in as few digits as it needs, a vector with two digits for each of its bytes. -/
def text : Value → String
  | word w => Hex.word w
  | vector bytes => Hex.number bytes

end Value

/-- The registers of a thread at one instant. -/
structure RegisterFile where
  gpr : Vector Word 32
  flags : Word
  extra : Vector Word 8
  sp : Word
  simd : Vector Simd 32
deriving DecidableEq

namespace RegisterFile

/-- All registers zero. -/
def zero : RegisterFile :=
  ⟨Vector.replicate 32 0, 0, Vector.replicate 8 0, 0, Vector.replicate 32 0⟩

instance : Inhabited RegisterFile := ⟨zero⟩

/-- The value of a slot; of a vector register only the low `width` bytes. -/
def value (file : RegisterFile) (slot : Slot) (width : Nat) : Value :=
  match slot with
  | .gpr i => .word file.gpr[i]
  | .flags => .word file.flags
  | .extra i => .word file.extra[i]
  | .sp => .word file.sp
  | .simd i => .vector (Bytes.low file.simd[i] width)

/-- Puts a word into a slot. A vector register does not take one and stays as it is. -/
def setWord (file : RegisterFile) (slot : Slot) (w : Word) : RegisterFile :=
  match slot with
  | .gpr i => { file with gpr := file.gpr.set i w }
  | .flags => { file with flags := w }
  | .extra i => { file with extra := file.extra.set i w }
  | .sp => { file with sp := w }
  | .simd _ => file

/-- Puts a vector into a vector register. -/
def setSimd (file : RegisterFile) (i : Fin 32) (v : Simd) : RegisterFile :=
  { file with simd := file.simd.set i v }

theorem simd_setWord (file : RegisterFile) (slot : Slot) (w : Word) :
    (file.setWord slot w).simd = file.simd := by
  cases slot <;> rfl

theorem simd_setSimd (file : RegisterFile) (d n : Fin 32) (v : Simd) :
    (file.setSimd d v).simd.get n = if n = d then v else file.simd.get n := by
  simp only [eq_comm (a := n), Fin.ext_iff]
  exact Vector.getElem_set d.isLt n.isLt

theorem simd_zero (i : Fin 32) : zero.simd.get i = 0 :=
  Vector.getElem_replicate i.isLt

theorem value_zero {slot : Slot} (h : ∀ i, slot ≠ .simd i) (width : Nat) :
    zero.value slot width = .word 0 := by
  cases slot with
  | simd i => exact absurd rfl (h i)
  | _ => simp [zero, value]

/-- What has been put into a slot is its value. -/
theorem value_setWord_self {slot : Slot} (h : ∀ i, slot ≠ .simd i) (file : RegisterFile) (w : Word)
    (width : Nat) : (file.setWord slot w).value slot width = .word w := by
  cases slot with
  | simd i => exact absurd rfl (h i)
  | _ => simp [setWord, value]

theorem value_setWord_of_ne {slot slot' : Slot} (h : slot' ≠ slot) (file : RegisterFile) (w : Word)
    (width : Nat) : (file.setWord slot w).value slot' width = file.value slot' width := by
  cases slot <;> cases slot' <;> simp_all [setWord, value, Fin.ext_iff, eq_comm]

theorem value_setSimd_of_ne {slot : Slot} {i : Fin 32} (h : slot ≠ .simd i) (file : RegisterFile)
    (v : Simd) (width : Nat) : (file.setSimd i v).value slot width = file.value slot width := by
  cases slot with
  | simd n =>
    have hne : n ≠ i := fun heq => h (congrArg Slot.simd heq)
    have hget := file.simd_setSimd i n v
    rw [if_neg hne] at hget
    exact congrArg (fun x => Value.vector (Bytes.low x width)) hget
  | _ => rfl

/-- The value at a location; a vector has 64 bytes to give. -/
def valueAt (file : RegisterFile) (loc : Location) (width : Nat) : Except Fault Value := do
  let slot ← loc.slot
  match slot with
  | .simd _ => if width ≤ 64 then pure (file.value slot width) else throw (.endOutOfRange 64 width)
  | _ => pure (file.value slot width)

/-- Puts a word at a location. Vector registers are left alone, whatever their number. -/
def setWordAt (file : RegisterFile) (loc : Location) (w : Word) : Except Fault RegisterFile :=
  match loc with
  | .simd _ => .ok file
  | _ => loc.slot.map (file.setWord · w)

end RegisterFile

end Rerun
