import Mathlib.Algebra.Group.Nat.Defs
import Rerun.Proofs.Windows

/-!
# Overlapping registers

Up to five general registers are windows on one 64-bit register. A write to one of them makes a new
64-bit content out of the old one (`merges_writeGpr`), and each of the others then shows its own
bits of that content. Nothing else changes, and registers of other classes are neither read nor
written (`writeGeneral_overlaps`).
-/

namespace Rerun

namespace X64

namespace Width

theorem toNat_mask (w : Width) : w.mask.toNat = 2 ^ w.bits - 1 := by
  cases w <;> decide

end Width

namespace Gpr

/-- The bits of the register in the content of its 64-bit register, as a number. -/
def window (r : Gpr) (content : Word) : Nat := content.toNat / 2 ^ r.shift % 2 ^ r.width.bits

/-- A write of `v` to the register makes `new` of the 64-bit content `old`: 64 bits replace it, 32
bits leave zeros above them, and fewer bits leave all others as they are. -/
def Merges (r : Gpr) (v old new : Word) : Prop :=
  match r.width with
  | .qword => new = v
  | .dword => new.toNat = v.toNat % 2 ^ 32
  | .word | .byte =>
    ∀ j < 64, new.getLsbD j = if r.Shows j then v.getLsbD (j - r.shift) else old.getLsbD j

end Gpr

end X64

namespace RegisterFile

open X64

variable (file : RegisterFile) (r q : Gpr) (v : Word)

/-! ## The other registers -/

theorem full_setFull_of_ne {m n : Fin 16} (h : m ≠ n) (w : Word) :
    (file.setFull n w).full m = file.full m := by
  unfold setFull
  split
  · next hn =>
    have hm : m ≠ Gpr.stackPointer := hn ▸ h
    rw [full, full, if_neg hm, if_neg hm]
  · unfold full
    split
    · rfl
    · have hval : (n.castLE (by decide : 16 ≤ 32)).val ≠ (m.castLE (by decide : 16 ≤ 32)).val :=
        fun heq => h (Fin.ext heq.symm)
      simp only [Fin.getElem_fin, Vector.getElem_set, hval, ↓reduceIte]

theorem readGpr_writeGpr_of_ne (h : q.number ≠ r.number) :
    (file.writeGpr r v).readGpr q = file.readGpr q := by
  obtain ⟨w, hw⟩ := file.exists_writeGpr_eq r v
  rw [hw, readGpr, readGpr, full_setFull_of_ne file h]

theorem extra_writeGpr : (file.writeGpr r v).extra = file.extra := by
  obtain ⟨w, hw⟩ := file.exists_writeGpr_eq r v
  rw [hw, setFull]
  split <;> rfl

theorem simd_writeGpr : (file.writeGpr r v).simd = file.simd := by
  obtain ⟨w, hw⟩ := file.exists_writeGpr_eq r v
  rw [hw, setFull]
  split <;> rfl

/-- The stack pointer is number 4, and has a slot of its own. -/
theorem getElem_four_writeGpr : (file.writeGpr r v).gpr[4] = file.gpr[4] := by
  obtain ⟨w, hw⟩ := file.exists_writeGpr_eq r v
  rw [hw, setFull]
  split
  · rfl
  · next hn =>
    have hval : (r.number.castLE (by decide : 16 ≤ 32)).val ≠ 4 := fun heq => hn (Fin.ext heq)
    simp only [Vector.getElem_set, hval, ↓reduceIte]

/-! ## The same register -/

/-- A register shows its window on the 64-bit register that it is part of. -/
theorem readGpr_eq_window : file.readGpr q = BitVec.ofNat 64 (q.window (file.full q.number)) := by
  have hlt : q.window (file.full q.number) < 2 ^ 64 :=
    Nat.lt_of_lt_of_le (Nat.mod_lt _ (Nat.two_pow_pos _))
      (Nat.pow_le_pow_right (by decide) q.width.bits_le)
  refine BitVec.eq_of_toNat_eq ?_
  rw [BitVec.toNat_ofNat, Nat.mod_eq_of_lt hlt, readGpr, BitVec.toNat_and, Width.toNat_mask,
    Nat.and_two_pow_sub_one_eq_mod, BitVec.toNat_ushiftRight, Nat.shiftRight_eq_div_pow]
  rfl

theorem merges_writeGpr :
    r.Merges v (file.full r.number) ((file.writeGpr r v).full r.number) := by
  have hbits : ∀ j < 64, r.width ≠ .dword → ((file.writeGpr r v).full r.number).getLsbD j
      = if r.Shows j then v.getLsbD (j - r.shift) else (file.full r.number).getLsbD j := by
    intro j hj hw
    split
    · next hmem => exact getLsbD_full_writeGpr_of_mem file r v hmem
    · next hmem =>
      rw [getLsbD_full_writeGpr_of_not_mem file r v hj hmem, decide_eq_true hw, Bool.true_and]
  unfold Gpr.Merges
  split
  · next hw => simp only [writeGpr, hw, full_setFull_self]
  · next hw =>
    simp only [writeGpr, hw, full_setFull_self, BitVec.toNat_and, Width.toNat_mask]
    exact Nat.and_two_pow_sub_one_eq_mod _ 32
  · next hw => exact fun j hj => hbits j hj (by simp [hw])
  · next hw => exact fun j hj => hbits j hj (by simp [hw])

/-- A write looks at no more bits than the register has. -/
theorem writeGpr_eq_iff {v w : Word} :
    file.writeGpr r v = file.writeGpr r w ↔ v.setWidth r.width.bits = w.setWidth r.width.bits := by
  constructor
  · intro h
    have hread := congrArg (·.readGpr r) h
    simp only [readGpr_writeGpr] at hread
    have hcut := congrArg (·.setWidth r.width.bits) hread
    simpa only [r.width.setWidth_setWidth] using hcut
  · intro h
    have hfull : (file.writeGpr r v).full r.number = (file.writeGpr r w).full r.number := by
      refine BitVec.eq_of_getLsbD_eq fun j hj => ?_
      by_cases hmem : r.Shows j
      · have hlt : j - r.shift < r.width.bits := by
          have := hmem.1
          have := hmem.2
          omega
        have hbit := congrArg (·.getLsbD (j - r.shift)) h
        simp only [BitVec.getLsbD_setWidth, hlt, decide_true, Bool.true_and] at hbit
        rw [getLsbD_full_writeGpr_of_mem file r v hmem, getLsbD_full_writeGpr_of_mem file r w hmem,
          hbit]
      · rw [getLsbD_full_writeGpr_of_not_mem file r v hj hmem,
          getLsbD_full_writeGpr_of_not_mem file r w hj hmem]
    obtain ⟨x, hx⟩ := file.exists_writeGpr_eq r v
    obtain ⟨y, hy⟩ := file.exists_writeGpr_eq r w
    rw [hx, hy, full_setFull_self, full_setFull_self] at hfull
    rw [hx, hy, hfull]

/-- A write to a general register is read back, cut to the width of the register. The registers
that share its 64-bit register show their windows on the new content, and all others stay as they
are. A register of another class is not read and not written. -/
theorem writeGeneral_overlaps :
    (∀ r : Gpr, ∃ file' new, file.writeGeneral (.gpr r) v = (true, file')
      ∧ r.Merges v (file.full r.number) new
      ∧ file'.readGeneral (.gpr r) = some (BitVec.ofNat 64 (v.toNat % 2 ^ r.width.bits))
      ∧ (∀ q : Gpr, file'.readGeneral (.gpr q)
          = if q.number = r.number then some (BitVec.ofNat 64 (q.window new))
            else file.readGeneral (.gpr q))
      ∧ file'.flags = file.flags ∧ file'.extra = file.extra ∧ file'.simd = file.simd
      ∧ file'.gpr[4] = file.gpr[4])
    ∧ ∀ r : Register, (∀ g, r ≠ .gpr g) →
      file.readGeneral r = none ∧ file.writeGeneral r v = (false, file) := by
  refine ⟨fun r => ⟨file.writeGpr r v, (file.writeGpr r v).full r.number, rfl,
    file.merges_writeGpr r v, ?_, fun q => ?_, file.flags_writeGpr r v, file.extra_writeGpr r v,
    file.simd_writeGpr r v, file.getElem_four_writeGpr r v⟩, fun r hr => ?_⟩
  · refine congrArg some ((file.readGpr_writeGpr r v).trans (BitVec.eq_of_toNat_eq ?_))
    rw [BitVec.toNat_setWidth, BitVec.toNat_setWidth, BitVec.toNat_ofNat]
  · split
    · next hq =>
      rw [← hq]
      exact congrArg some (readGpr_eq_window _ q)
    · next hq => exact congrArg some (file.readGpr_writeGpr_of_ne r q v hq)
  · cases r with
    | gpr g => exact absurd rfl (hr g)
    | _ => exact ⟨rfl, rfl⟩

/-- The second byte of the accumulator takes the low byte of `0x1ab`, and the low half of the
accumulator shows it above what was there before. -/
theorem writeGeneral_overlaps_high :
    let file := zero.setFull 0 0x1122334455667788
    (∃ file', file.writeGeneral (.gpr (.high 0)) 0x1ab = (true, file')
      ∧ file'.readGeneral (.gpr (.high 0)) = some 0xab
      ∧ file'.readGeneral (.gpr (.low 4 .byte)) = some 0
      ∧ file'.readGeneral (.gpr (.low 0 .word)) = some 0xab88)
    ∧ file.writeGeneral (.mask 1) 0x1ab = (false, file) := by
  intro file
  obtain ⟨hgpr, hother⟩ := file.writeGeneral_overlaps 0x1ab
  obtain ⟨file', new, hwrite, hmerges, hself, hread, -⟩ := hgpr (.high 0)
  refine ⟨⟨file', hwrite, hself, ?_, ?_⟩, (hother (.mask 1) nofun).2⟩
  · rw [hread, if_neg (by decide)]
    decide +kernel
  · rw [hread, if_pos (by decide)]
    have hnew : new = 0x112233445566ab88 := by
      refine BitVec.eq_of_getLsbD_eq fun j hj => ?_
      rw [hmerges j hj]
      revert j
      decide +kernel
    rw [hnew]
    decide

end RegisterFile

end Rerun
