import Rerun.Proofs.Windows
import Rerun.X64.Flags

/-!
# Arithmetic under a mask

A machine with whole words only computes at a smaller width by cutting its words with a mask and by
looking at the highest bit of that width. The sums, differences and bitwise results it finds in this
way, and their flags, are those of words that have the smaller width (`maskedAddition_eq`,
`maskedSubtraction_eq`, `ofMasked_and`).
-/

namespace Rerun.X64

/-- The highest bit of a width. -/
def Width.top (w : Width) : Word := BitVec.twoPow 64 (w.bits - 1)

/-- The flags of a result, under a mask of ones and its highest bit. -/
def Flags.ofMasked (r ones top : Word) : Flags :=
  { parity := evenParity r, zero := r &&& ones == 0, sign := r &&& top != 0 }

/-- The sum under a mask, with its flags. -/
def maskedAddition (ones top a b : Word) : Word × Flags :=
  let a := a &&& ones
  let b := b &&& ones
  let r := (a + b) &&& ones
  (r, { Flags.ofMasked r ones top with
    carry := r < a
    adjust := (a ^^^ b ^^^ r) &&& Flags.adjustBit != 0
    overflow := (a ^^^ r) &&& (b ^^^ r) &&& top != 0 })

/-- The difference under a mask, with its flags. -/
def maskedSubtraction (ones top a b : Word) : Word × Flags :=
  let a := a &&& ones
  let b := b &&& ones
  let r := (a - b) &&& ones
  (r, { Flags.ofMasked r ones top with
    carry := a < b
    adjust := (a ^^^ b ^^^ r) &&& Flags.adjustBit != 0
    overflow := (a ^^^ b) &&& (a ^^^ r) &&& top != 0 })

variable (w : Width)

/-! ## Cutting and looking at a bit -/

theorem and_mask (x : Word) : x &&& w.mask = (x.setWidth w.bits).setWidth 64 := by
  refine BitVec.eq_of_getLsbD_eq fun j hj => ?_
  rw [BitVec.getLsbD_and, Width.getLsbD_mask, BitVec.getLsbD_setWidth, BitVec.getLsbD_setWidth,
    decide_eq_true hj, Bool.true_and, Bool.and_comm]

theorem and_twoPow_bne (x : Word) {k : Nat} (hk : k < 64) :
    (x &&& BitVec.twoPow 64 k != 0) = x.getLsbD k := by
  have hone : BitVec.twoPow 64 k ≠ 0#64 := fun h => by
    have hbit := congrArg (·.getLsbD k) h
    simp [hk] at hbit
  rw [BitVec.and_twoPow]
  cases x.getLsbD k <;> simp [hone]

theorem setWidth_and_top (x : BitVec w.bits) : (x.setWidth 64 &&& w.top != 0) = x.msb := by
  have hpos := w.eight_le_bits
  have hle := w.bits_le
  have hlt : w.bits - 1 < 64 := by omega
  rw [Width.top, and_twoPow_bne _ hlt, BitVec.getLsbD_setWidth, decide_eq_true hlt, Bool.true_and,
    BitVec.msb_eq_getLsbD_last]

theorem setWidth_and_adjustBit (x : BitVec w.bits) :
    (x.setWidth 64 &&& Flags.adjustBit != 0) = x.getLsbD 4 := by
  have hbit : Flags.adjustBit = BitVec.twoPow 64 4 := by decide
  rw [hbit, and_twoPow_bne _ (by decide), BitVec.getLsbD_setWidth]
  rfl

theorem setWidth_lt_iff (x y : BitVec w.bits) : x.setWidth 64 < y.setWidth 64 ↔ x < y := by
  rw [BitVec.lt_def, BitVec.lt_def, BitVec.toNat_setWidth_of_le w.bits_le,
    BitVec.toNat_setWidth_of_le w.bits_le]

theorem evenParity_setWidth (x : BitVec w.bits) :
    Flags.evenParity (x.setWidth 64) = Flags.evenParity x := by
  have hcount : (List.range 8).countP ((x.setWidth 64).getLsbD ·)
      = (List.range 8).countP (x.getLsbD ·) := by
    refine List.countP_congr fun j hj => ?_
    have hlt : j < 64 := Nat.lt_trans (List.mem_range.1 hj) (by decide)
    rw [BitVec.getLsbD_setWidth, decide_eq_true hlt, Bool.true_and]
  rw [Flags.evenParity, hcount]
  rfl

theorem setWidth_beq_zero (x : BitVec w.bits) : (x.setWidth 64 == 0) = (x == 0#w.bits) := by
  have hzero : x.setWidth 64 = 0 ↔ x = 0#w.bits := by
    rw [← BitVec.toNat_inj, ← BitVec.toNat_inj, BitVec.toNat_setWidth_of_le w.bits_le]
    rfl
  rw [Bool.eq_iff_iff, beq_iff_eq, beq_iff_eq, hzero]

/-! ## Results -/

theorem ofMasked_setWidth (x : BitVec w.bits) :
    Flags.ofMasked (x.setWidth 64) w.mask w.top = Flags.ofResult x := by
  have hself : x.setWidth 64 &&& w.mask = x.setWidth 64 := by
    rw [and_mask, w.setWidth_setWidth]
  rw [Flags.ofMasked, hself, evenParity_setWidth, setWidth_beq_zero, setWidth_and_top]
  rfl

/-- The flags of a result that is cut. -/
theorem ofMasked_and (r : Word) :
    Flags.ofMasked (r &&& w.mask) w.mask w.top = (bitwise (r.setWidth w.bits)).2 := by
  rw [and_mask, ofMasked_setWidth]
  rfl

theorem cut_add (x y : BitVec w.bits) :
    (x.setWidth 64 + y.setWidth 64).setWidth w.bits = x + y := by
  rw [BitVec.setWidth_add _ _ w.bits_le, w.setWidth_setWidth, w.setWidth_setWidth]

theorem cut_sub (x y : BitVec w.bits) :
    (x.setWidth 64 - y.setWidth 64).setWidth w.bits = x - y := by
  rw [BitVec.sub_eq_add_neg, BitVec.sub_eq_add_neg, BitVec.setWidth_add _ _ w.bits_le,
    BitVec.setWidth_neg_of_le w.bits_le, w.setWidth_setWidth, w.setWidth_setWidth]

theorem maskedAddition_eq (a b : Word) :
    maskedAddition w.mask w.top a b
      = ((addition (a.setWidth w.bits) (b.setWidth w.bits)).1.setWidth 64,
        (addition (a.setWidth w.bits) (b.setWidth w.bits)).2) := by
  unfold maskedAddition
  simp only [and_mask]
  generalize a.setWidth w.bits = x
  generalize b.setWidth w.bits = y
  simp only [cut_add, ofMasked_setWidth, ← BitVec.setWidth_xor, ← BitVec.setWidth_and,
    setWidth_and_adjustBit, setWidth_and_top, setWidth_lt_iff]
  rfl

theorem maskedSubtraction_eq (a b : Word) :
    maskedSubtraction w.mask w.top a b
      = ((subtraction (a.setWidth w.bits) (b.setWidth w.bits)).1.setWidth 64,
        (subtraction (a.setWidth w.bits) (b.setWidth w.bits)).2) := by
  unfold maskedSubtraction
  simp only [and_mask]
  generalize a.setWidth w.bits = x
  generalize b.setWidth w.bits = y
  simp only [cut_sub, ofMasked_setWidth, ← BitVec.setWidth_xor, ← BitVec.setWidth_and,
    setWidth_and_adjustBit, setWidth_and_top, setWidth_lt_iff]
  rfl

end Rerun.X64
