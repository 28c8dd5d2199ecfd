import Mathlib.Algebra.Group.Nat.Defs
import Rerun.X64.Step

/-!
# Vector instructions

A vector instruction works on the low sixteen bytes of a register, a byte, a quarter or a half at a
time. As numbers, read byte by byte from the least significant one (`Bytes.lane`), the halves of a
sum are the sums of the halves (`lane_addQuads`), and the quarters of a comparison tell which
quarters are equal (`lane_equalDoubles`). All other bytes of the destination stay as they are, and
so do all other registers (`Instruction.step_combines`).
-/

namespace Rerun

namespace Bytes

/-- The number that a list of bytes stands for, least significant byte first. -/
def number : List Byte → Nat
  | [] => 0
  | b :: rest => b.toNat + 256 * number rest

variable {n : Nat}

/-- The number in the `k`th group of `size` bytes, groups and bytes counted from the least
significant one. -/
def lane (v : BitVec n) (size k : Nat) : Nat :=
  number ((List.range' (size * k) size).map (nth v))

theorem toNat_nth (v : BitVec n) (i : Nat) : (nth v i).toNat = v.toNat / 256 ^ i % 256 := by
  rw [nth, BitVec.extractLsb'_toNat, Nat.shiftRight_eq_div_pow, Nat.pow_mul]

theorem number_range' (v : BitVec n) (count start : Nat) :
    number ((List.range' start count).map (nth v)) = v.toNat / 256 ^ start % 256 ^ count := by
  induction count generalizing start with
  | zero => exact (Nat.mod_one _).symm
  | succ count ih =>
    rw [List.range'_succ, List.map_cons, number, ih, toNat_nth, Nat.pow_succ, Nat.pow_succ',
      Nat.mod_mul, Nat.div_div_eq_div_mul]

/-- A group of bytes is a piece of the vector. -/
theorem lane_eq (v : BitVec n) (size k : Nat) :
    lane v size k = (v.extractLsb' (8 * (size * k)) (8 * size)).toNat := by
  rw [lane, number_range', BitVec.extractLsb'_toNat, Nat.shiftRight_eq_div_pow, Nat.pow_mul 2 8,
    Nat.pow_mul 2 8]

theorem nth_xor (v w : BitVec n) (i : Nat) : nth (v ^^^ w) i = nth v i ^^^ nth w i :=
  BitVec.extractLsb'_xor

theorem nth_setWidth (v : BitVec n) {i m : Nat} (h : 8 * i + 8 ≤ m) :
    nth (v.setWidth m) i = nth v i :=
  BitVec.extractLsb'_setWidth_of_le h

theorem nth_append_low {m : Nat} (v : BitVec n) (w : BitVec m) {i : Nat} (h : 8 * i + 8 ≤ m) :
    nth (v ++ w) i = nth w i :=
  BitVec.extractLsb'_append_eq_of_add_le h

/-- Groups of bytes are the same if the bytes are. -/
theorem lane_congr {m : Nat} {v : BitVec n} {w : BitVec m} {size k : Nat}
    (h : ∀ i, size * k ≤ i → i < size * k + size → nth v i = nth w i) :
    lane v size k = lane w size k := by
  refine congrArg number (List.map_congr_left fun i hi => ?_)
  obtain ⟨hlow, hhigh⟩ := List.mem_range'_1.1 hi
  exact h i hlow hhigh

end Bytes

namespace X64

open Bytes

variable (a b : BitVec 128) {k : Nat}

/-! ## Halves and quarters -/

/-- A carry out of the lower half is lost. -/
theorem lane_addQuads (hk : k < 2) :
    lane (addQuads a b) 8 k = (lane a 8 k + lane b 8 k) % 2 ^ 64 := by
  rw [lane_eq, lane_eq, lane_eq, ← BitVec.toNat_add]
  refine congrArg BitVec.toNat ?_
  obtain rfl | rfl : k = 0 ∨ k = 1 := by omega
  · exact BitVec.extractLsb'_append_eq_right
  · exact BitVec.extractLsb'_append_eq_left

theorem extractLsb'_equalDoubles (hk : k < 4) :
    (equalDoubles a b).extractLsb' (32 * k) 32 = equalDoubles.quarter a b k := by
  rw [equalDoubles]
  obtain rfl | rfl | rfl | rfl : k = 0 ∨ k = 1 ∨ k = 2 ∨ k = 3 := by omega
  · exact BitVec.extractLsb'_append_eq_right
  · rw [BitVec.extractLsb'_append_eq_of_le (by decide)]
    exact BitVec.extractLsb'_append_eq_right
  · rw [BitVec.extractLsb'_append_eq_of_le (by decide),
      BitVec.extractLsb'_append_eq_of_le (by decide)]
    exact BitVec.extractLsb'_append_eq_right
  · rw [BitVec.extractLsb'_append_eq_of_le (by decide),
      BitVec.extractLsb'_append_eq_of_le (by decide)]
    exact BitVec.extractLsb'_append_eq_left

theorem lane_equalDoubles (hk : k < 4) :
    lane (equalDoubles a b) 4 k = if lane a 4 k = lane b 4 k then 2 ^ 32 - 1 else 0 := by
  have hstart : 8 * (4 * k) = 32 * k := by omega
  have hlane : ∀ v : BitVec 128, lane v 4 k = (v.extractLsb' (32 * k) 32).toNat := fun v => by
    rw [lane_eq, hstart]
  rw [hlane, hlane, hlane, extractLsb'_equalDoubles a b hk, equalDoubles.quarter]
  by_cases h : a.extractLsb' (32 * k) 32 = b.extractLsb' (32 * k) 32
  · rw [if_pos h, if_pos (congrArg BitVec.toNat h), BitVec.toNat_allOnes]
  · rw [if_neg h, if_neg fun heq => h (BitVec.eq_of_toNat_eq heq)]
    rfl

namespace Mnemonic

/-- The operations on vectors. -/
def vectors : List Mnemonic := [movdqa, movdqu, movaps, movups, pxor, xorps, paddq, pcmpeqd]

/-- The vector `r` that operation `m` has to leave in a register that held `d`, where `s` is the
source. -/
structure Combines (m : Mnemonic) (d s r : Simd) : Prop where
  moved : m ∈ [movdqa, movdqu, movaps, movups] → ∀ i < 16, nth r i = nth s i
  exclusive : m ∈ [pxor, xorps] → ∀ i < 16, nth r i = nth d i ^^^ nth s i
  summed : m = paddq → ∀ k < 2, lane r 8 k = (lane d 8 k + lane s 8 k) % 2 ^ 64
  equated : m = pcmpeqd → ∀ k < 4, lane r 4 k = if lane d 4 k = lane s 4 k then 2 ^ 32 - 1 else 0
  above : ∀ i, 16 ≤ i → i < 64 → nth r i = nth d i

/-- What an operation does to the low bytes. -/
def combine : Mnemonic → BitVec 128 → BitVec 128 → BitVec 128
  | pxor | xorps => fun d s => d ^^^ s
  | paddq => addQuads
  | pcmpeqd => equalDoubles
  | _ => fun _ s => s

/-- A vector with other low bytes. -/
def merge (d : Simd) (low : BitVec 128) : Simd := d.extractLsb' 128 384 ++ low

variable (d s : Simd) (low : BitVec 128) {i size : Nat}

theorem nth_merge_low (h : i < 16) : nth (merge d low) i = nth low i :=
  nth_append_low _ low (by omega)

theorem nth_merge_high (h : 16 ≤ i) (h' : i < 64) : nth (merge d low) i = nth d i := by
  refine BitVec.eq_of_getLsbD_eq fun j hj => ?_
  have hlow : ¬8 * i + j < 128 := by omega
  have hhigh : 8 * i + j - 128 < 384 := by omega
  have hadd : 128 + (8 * i + j - 128) = 8 * i + j := by omega
  rw [getLsbD_nth _ _ hj, getLsbD_nth _ _ hj, merge, BitVec.getLsbD_append, if_neg hlow,
    BitVec.getLsbD_extractLsb', decide_eq_true hhigh, Bool.true_and, hadd]

theorem lane_merge (h : size * k + size ≤ 16) : lane (merge d low) size k = lane low size k :=
  lane_congr fun _ _ hi => nth_merge_low d low (by omega)

theorem lane_setWidth (v : Simd) (h : size * k + size ≤ 16) :
    lane (v.setWidth 128) size k = lane v size k :=
  lane_congr fun _ _ hi => nth_setWidth v (by omega)

theorem combines_merge (m : Mnemonic) :
    m.Combines d s (merge d (m.combine (d.setWidth 128) (s.setWidth 128))) where
  moved hm i hi := by
    rw [nth_merge_low _ _ hi, ← nth_setWidth s (m := 128) (by omega)]
    simp only [List.mem_cons, List.not_mem_nil, or_false] at hm
    rcases hm with rfl | rfl | rfl | rfl <;> rfl
  exclusive hm i hi := by
    rw [nth_merge_low _ _ hi, ← nth_setWidth d (m := 128) (by omega),
      ← nth_setWidth s (m := 128) (by omega), ← nth_xor]
    simp only [List.mem_cons, List.not_mem_nil, or_false] at hm
    rcases hm with rfl | rfl <;> rfl
  summed hm k hk := by
    subst hm
    rw [lane_merge _ _ (by omega), combine, lane_addQuads _ _ hk, lane_setWidth d (by omega),
      lane_setWidth s (by omega)]
  equated hm k hk := by
    subst hm
    rw [lane_merge _ _ (by omega), combine, lane_equalDoubles _ _ hk, lane_setWidth d (by omega),
      lane_setWidth s (by omega)]
  above i h h' := nth_merge_high d _ h h'

end Mnemonic

/-! ## The instructions -/

namespace Instruction

variable {i : Instruction} {d s : Fin 32} {file : RegisterFile}

/-- The registers after a vector instruction. -/
def afterVector (i : Instruction) (d s : Fin 32) (file : RegisterFile) : RegisterFile :=
  file.setSimd d (Mnemonic.merge (file.simd.get d)
    (i.mnemonic.combine ((file.simd.get d).setWidth 128) ((file.simd.get s).setWidth 128)))

theorem run_lane {n : Nat} (h : i.operand n = .register (.vector .xmm d)) :
    (Emulation.lane i n).run file = .ok d file := by
  unfold Emulation.lane Emulation.register
  rw [h]
  rfl

theorem run_vector (hdst : i.operand 0 = .register (.vector .xmm d))
    (hsrc : i.operand 1 = .register (.vector .xmm s))
    (op : BitVec 128 → BitVec 128 → BitVec 128) :
    (Emulation.vector i op).run file = .ok () (file.setSimd d (Mnemonic.merge (file.simd.get d)
      (op ((file.simd.get d).setWidth 128) ((file.simd.get s).setWidth 128)))) := by
  unfold Emulation.vector
  rw [EStateM.run_bind, run_lane hdst]
  dsimp only
  rw [EStateM.run_bind, run_lane hsrc]
  rfl

theorem run_compute_vector (hm : i.mnemonic ∈ Mnemonic.vectors)
    (hdst : i.operand 0 = .register (.vector .xmm d))
    (hsrc : i.operand 1 = .register (.vector .xmm s)) :
    i.compute.run file = .ok () (i.afterVector d s file) := by
  simp only [Mnemonic.vectors, List.mem_cons, List.not_mem_nil, or_false] at hm
  rcases hm with h | h | h | h | h | h | h | h <;> simp only [compute, afterVector, h] <;>
    exact run_vector hdst hsrc _

/-- A vector instruction proceeds. It combines the low sixteen bytes of its registers, which may be
one and the same, as its operation says, and changes nothing else. -/
theorem step_combines (hflow : i.flow = .next) (hm : i.mnemonic ∈ Mnemonic.vectors)
    (hdst : i.operand 0 = .register (.vector .xmm d))
    (hsrc : i.operand 1 = .register (.vector .xmm s)) :
    ∃ file', i.step.run file = .ok .proceed file'
      ∧ i.mnemonic.Combines (file.simd.get d) (file.simd.get s) (file'.simd.get d)
      ∧ (∀ n, n ≠ d → file'.simd.get n = file.simd.get n)
      ∧ file'.gpr = file.gpr ∧ file'.sp = file.sp ∧ file'.extra = file.extra
      ∧ file'.flags = file.flags := by
  have hrun : i.step.run file = .ok .proceed (i.afterVector d s file) := by
    rw [step, hflow]
    show (i.compute >>= _).run file = _
    rw [EStateM.run_bind, run_compute_vector hm hdst hsrc]
    rfl
  refine ⟨_, hrun, ?_, fun n hn => ?_, rfl, rfl, rfl, rfl⟩
  · rw [afterVector, RegisterFile.simd_setSimd, if_pos rfl]
    exact Mnemonic.combines_merge _ _ _
  · rw [afterVector, RegisterFile.simd_setSimd, if_neg hn]

/-- In `paddq xmm1, xmm1` the lower half has a carry, which the upper half does not see. -/
theorem step_combines_doubled :
    let file := RegisterFile.zero.setSimd 1 ((0xee <<< 160) ||| 0x8000000000000001)
    let i : Instruction :=
      ⟨.paddq, .next, [.register (.vector .xmm 1), .register (.vector .xmm 1)], [],
        "paddq xmm1,xmm1"⟩
    ∃ file', i.step.run file = .ok .proceed file' ∧ lane (file'.simd.get 1) 8 0 = 2
      ∧ lane (file'.simd.get 1) 8 1 = 0 ∧ nth (file'.simd.get 1) 20 = 0xee := by
  intro file i
  obtain ⟨file', hrun, hcomb, -⟩ :=
    @step_combines i 1 1 file rfl (by decide) rfl rfl
  refine ⟨file', hrun, ?_, ?_, ?_⟩
  · rw [hcomb.summed rfl 0 (by decide)]
    decide +kernel
  · rw [hcomb.summed rfl 1 (by decide)]
    decide +kernel
  · rw [hcomb.above 20 (by decide) (by decide)]
    decide +kernel

end Instruction

end X64

end Rerun
