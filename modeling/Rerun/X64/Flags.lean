import Rerun.X64.Register

/-!
# Arithmetic flags

The six flags that integer instructions set, where they stand in the flags word, and the results
and flags of addition, subtraction and the bitwise operations at any width.
-/

namespace Rerun.X64

/-- The flags of a result. -/
structure Flags where
  carry : Bool := false
  parity : Bool := false
  adjust : Bool := false
  zero : Bool := false
  sign : Bool := false
  overflow : Bool := false
deriving DecidableEq, Repr

namespace Flags

/-- The bit of the carry flag. -/
def carryBit : Word := 0x1

/-- The bit of the parity flag. -/
def parityBit : Word := 0x4

/-- The bit of the adjust flag. -/
def adjustBit : Word := 0x10

/-- The bit of the zero flag. -/
def zeroBit : Word := 0x40

/-- The bit of the sign flag. -/
def signBit : Word := 0x80

/-- The bit of the overflow flag. -/
def overflowBit : Word := 0x800

/-- The bits of all six. -/
def arithmetic : Word := carryBit ||| parityBit ||| adjustBit ||| zeroBit ||| signBit ||| overflowBit

/-- The flags in their places, all other bits zero. -/
def word (f : Flags) : Word :=
  (if f.carry then carryBit else 0) ||| (if f.parity then parityBit else 0) ||| (if f.adjust then adjustBit else 0)
    ||| (if f.zero then zeroBit else 0) ||| (if f.sign then signBit else 0)
    ||| (if f.overflow then overflowBit else 0)

/-- Whether the low byte has an even number of ones. -/
def evenParity {w : Nat} (r : BitVec w) : Bool := (List.range 8).countP (r.getLsbD ·) % 2 == 0

/-- The flags that describe a result; carry, adjust and overflow are clear. -/
def ofResult {w : Nat} (r : BitVec w) : Flags :=
  { parity := evenParity r, zero := r == 0#w, sign := r.msb }

end Flags

/-- The sum, with its flags: a carry makes the sum smaller than its terms, and a sum overflows if
its sign differs from the sign of both. -/
def addition {w : Nat} (a b : BitVec w) : BitVec w × Flags :=
  let r := a + b
  (r, { Flags.ofResult r with
    carry := r < a
    adjust := (a ^^^ b ^^^ r).getLsbD 4
    overflow := ((a ^^^ r) &&& (b ^^^ r)).msb })

/-- The difference, with its flags: it borrows if the first term is the smaller, and overflows if
the terms differ in sign and the result takes the sign of the second. -/
def subtraction {w : Nat} (a b : BitVec w) : BitVec w × Flags :=
  let r := a - b
  (r, { Flags.ofResult r with
    carry := a < b
    adjust := (a ^^^ b ^^^ r).getLsbD 4
    overflow := ((a ^^^ b) &&& (a ^^^ r)).msb })

/-- A bitwise result, with its flags. -/
def bitwise {w : Nat} (r : BitVec w) : BitVec w × Flags := (r, Flags.ofResult r)

end Rerun.X64

namespace Rerun.RegisterFile

/-- Replaces the flags selected by `affected`. -/
def updateFlags (file : RegisterFile) (f : X64.Flags) (affected : Word) : RegisterFile :=
  { file with flags := (file.flags &&& ~~~affected) ||| (f.word &&& affected) }

theorem value_updateFlags (file : RegisterFile) (f : X64.Flags) (affected : Word) {slot : Slot}
    (h : slot ≠ .flags) (width : Nat) :
    (file.updateFlags f affected).value slot width = file.value slot width := by
  cases slot with
  | flags => exact absurd rfl h
  | _ => rfl

end Rerun.RegisterFile
