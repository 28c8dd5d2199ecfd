import Rerun.X64.Register

/-!
# Windows on the general registers

A general register is a window on one of the sixteen 64-bit registers: its bits are a stretch of the
bits of that one. A write puts new bits into the window (`getLsbD_full_writeGpr_of_mem`) and nothing
else, but that a write of 32 bits clears the upper half (`getLsbD_full_writeGpr_of_not_mem`). So
what has been written is read back (`readGpr_writeGpr`), and the slots of the other registers stay
as they are (`value_writeGpr_of_ne`).
-/

namespace Rerun

namespace X64

namespace Width

theorem bits_le (w : Width) : w.bits ≤ 64 := by
  cases w <;> decide

theorem eight_le_bits (w : Width) : 8 ≤ w.bits := by
  cases w <;> decide

theorem setWidth_setWidth (w : Width) (x : BitVec w.bits) :
    (x.setWidth 64).setWidth w.bits = x := by
  rw [BitVec.setWidth_setWidth_of_le _ w.bits_le, BitVec.setWidth_eq]

theorem getLsbD_mask (w : Width) (j : Nat) : w.mask.getLsbD j = decide (j < w.bits) := by
  rw [mask, BitVec.getLsbD_setWidth, BitVec.getLsbD_allOnes]
  have := w.bits_le
  by_cases hj : j < w.bits
  · simp [hj, show j < 64 by omega]
  · simp [hj]

end Width

namespace Gpr

/-- The slot of the 64-bit register that this one is part of. -/
def slot (r : Gpr) : Slot :=
  if r.number = stackPointer then .sp else .gpr (r.number.castAdd 16)

/-- Bit `j` of the 64-bit register belongs to this one. -/
def Shows (r : Gpr) (j : Nat) : Prop := r.shift ≤ j ∧ j < r.shift + r.width.bits

instance (r : Gpr) (j : Nat) : Decidable (r.Shows j) := inferInstanceAs (Decidable (_ ∧ _))

theorem shift_add_bits_le (r : Gpr) : r.shift + r.width.bits ≤ 64 := by
  cases r with
  | low n w => exact (Nat.zero_add _).symm ▸ w.bits_le
  | high n => exact (by decide : 8 + 8 ≤ 64)

theorem shift_eq_zero {r : Gpr} (h : r.width ≠ .byte) : r.shift = 0 := by
  cases r with
  | low n w => rfl
  | high n => exact absurd rfl h

end Gpr

end X64

namespace RegisterFile

open X64

variable (file : RegisterFile) (r : Gpr) (v : Word)

/-! ## The 64-bit registers -/

@[simp] theorem full_setFull_self (n : Fin 16) (w : Word) : (file.setFull n w).full n = w := by
  by_cases hn : n = Gpr.stackPointer
  · simp [setFull, full, hn]
  · simp [setFull, full, hn]

theorem value_setFull_of_ne {slot : Slot} (h : slot ≠ r.slot) (w : Word) (width : Nat) :
    (file.setFull r.number w).value slot width = file.value slot width := by
  unfold Gpr.slot at h
  unfold setFull
  split
  · next hn =>
    rw [if_pos hn] at h
    cases slot with
    | sp => exact absurd rfl h
    | _ => rfl
  · next hn =>
    rw [if_neg hn] at h
    cases slot with
    | gpr i =>
      have hne : (r.number.castLE (by decide : 16 ≤ 32)).val ≠ i.val :=
        fun heq => h (congrArg Slot.gpr (Fin.ext heq.symm))
      simp only [value, Fin.getElem_fin, Vector.getElem_set, hne, ↓reduceIte]
    | _ => rfl

/-! ## Reading -/

theorem getLsbD_readGpr (j : Nat) : (file.readGpr r).getLsbD j
    = (decide (j < r.width.bits) && (file.full r.number).getLsbD (r.shift + j)) := by
  rw [readGpr, BitVec.getLsbD_and, Width.getLsbD_mask, BitVec.getLsbD_ushiftRight, Bool.and_comm]

/-! ## Writing -/

/-- A write replaces one 64-bit register. -/
theorem exists_writeGpr_eq : ∃ w, file.writeGpr r v = file.setFull r.number w := by
  unfold writeGpr
  split <;> exact ⟨_, rfl⟩

theorem value_writeGpr_of_ne {slot : Slot} (h : slot ≠ r.slot) (width : Nat) :
    (file.writeGpr r v).value slot width = file.value slot width := by
  obtain ⟨w, hw⟩ := file.exists_writeGpr_eq r v
  rw [hw, value_setFull_of_ne file r h]

theorem flags_writeGpr : (file.writeGpr r v).flags = file.flags := by
  have hne : Slot.flags ≠ r.slot := by
    unfold Gpr.slot
    split <;> simp
  exact Value.word.inj (file.value_writeGpr_of_ne r v hne 64)

/-- The bits of a window after a replacement of 16 or 8 bits. -/
theorem getLsbD_replace {old mask new : Word} {j : Nat} (hj : j < 64) :
    ((old &&& ~~~mask) ||| (new &&& mask)).getLsbD j
      = if mask.getLsbD j then new.getLsbD j else old.getLsbD j := by
  simp only [BitVec.getLsbD_or, BitVec.getLsbD_and, BitVec.getLsbD_not, hj, decide_true,
    Bool.true_and]
  cases mask.getLsbD j <;> simp

theorem full_writeGpr_of_narrow (h : r.width = .byte ∨ r.width = .word) :
    (file.writeGpr r v).full r.number
      = (file.full r.number &&& ~~~(r.width.mask <<< r.shift))
        ||| ((v <<< r.shift) &&& (r.width.mask <<< r.shift)) := by
  rcases h with h | h <;> simp only [writeGpr, h, full_setFull_self]

theorem getLsbD_mask_shiftLeft {j : Nat} (hj : j < 64) :
    (r.width.mask <<< r.shift).getLsbD j = decide (r.Shows j) := by
  rw [BitVec.getLsbD_shiftLeft, Width.getLsbD_mask, Bool.eq_iff_iff]
  simp only [hj, decide_true, Bool.true_and, Bool.and_eq_true, Bool.not_eq_true',
    decide_eq_true_eq, decide_eq_false_iff_not]
  unfold Gpr.Shows
  omega

/-- Inside the window stand the bits that have been written. -/
theorem getLsbD_full_writeGpr_of_mem {j : Nat} (hj : r.Shows j) :
    ((file.writeGpr r v).full r.number).getLsbD j = v.getLsbD (j - r.shift) := by
  have hlt : j < 64 := Nat.lt_of_lt_of_le hj.2 r.shift_add_bits_le
  have hnarrow : r.width = .byte ∨ r.width = .word →
      ((file.writeGpr r v).full r.number).getLsbD j = v.getLsbD (j - r.shift) := by
    intro h
    rw [full_writeGpr_of_narrow file r v h, getLsbD_replace hlt, getLsbD_mask_shiftLeft r hlt,
      decide_eq_true hj, if_pos rfl, BitVec.getLsbD_shiftLeft]
    simp [hlt, Nat.not_lt.2 hj.1]
  cases hw : r.width with
  | byte => exact hnarrow (.inl hw)
  | word => exact hnarrow (.inr hw)
  | dword =>
    have hbits : j < Width.dword.bits := by simpa [Gpr.Shows, Gpr.shift_eq_zero, hw] using hj.2
    rw [Gpr.shift_eq_zero (by simp [hw])]
    simp only [writeGpr, hw, full_setFull_self, BitVec.getLsbD_and, Width.getLsbD_mask, hbits,
      decide_true, Bool.and_true, Nat.sub_zero]
  | qword =>
    rw [Gpr.shift_eq_zero (by simp [hw])]
    simp only [writeGpr, hw, full_setFull_self, Nat.sub_zero]

/-- Outside of the window nothing changes, but that a write of 32 bits leaves zeros there. -/
theorem getLsbD_full_writeGpr_of_not_mem {j : Nat} (hlt : j < 64) (hj : ¬r.Shows j) :
    ((file.writeGpr r v).full r.number).getLsbD j
      = (decide (r.width ≠ .dword) && (file.full r.number).getLsbD j) := by
  have hnarrow : r.width = .byte ∨ r.width = .word →
      ((file.writeGpr r v).full r.number).getLsbD j = (file.full r.number).getLsbD j := by
    intro h
    rw [full_writeGpr_of_narrow file r v h, getLsbD_replace hlt, getLsbD_mask_shiftLeft r hlt,
      decide_eq_false hj, if_neg Bool.false_ne_true]
  cases hw : r.width with
  | byte => simpa using hnarrow (.inl hw)
  | word => simpa using hnarrow (.inr hw)
  | dword =>
    have hbits : ¬j < Width.dword.bits := by simpa [Gpr.Shows, Gpr.shift_eq_zero, hw] using hj
    simp only [writeGpr, hw, full_setFull_self, BitVec.getLsbD_and, Width.getLsbD_mask, hbits,
      decide_false, Bool.and_false, ne_eq, not_true_eq_false, Bool.false_and]
  | qword =>
    have hshift : r.shift = 0 := Gpr.shift_eq_zero (by simp [hw])
    exact absurd ⟨hshift ▸ Nat.zero_le j, by rw [hshift, hw, Nat.zero_add]; exact hlt⟩ hj

/-- What has been written is read back. -/
theorem readGpr_writeGpr :
    (file.writeGpr r v).readGpr r = (v.setWidth r.width.bits).setWidth 64 := by
  refine BitVec.eq_of_getLsbD_eq fun j hj => ?_
  rw [getLsbD_readGpr, BitVec.getLsbD_setWidth, BitVec.getLsbD_setWidth, decide_eq_true hj,
    Bool.true_and]
  by_cases hbits : j < r.width.bits
  · rw [getLsbD_full_writeGpr_of_mem file r v ⟨Nat.le_add_right _ _, Nat.add_lt_add_left hbits _⟩,
      Nat.add_sub_cancel_left]
  · simp [hbits]

end RegisterFile

end Rerun
