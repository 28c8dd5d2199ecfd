import Rerun.X64.Flags
import Mathlib.Tactic.Ring

/-!
# Sums and differences as numbers

The flags of a sum and of a difference are computed by comparisons and exclusive ors on the words.
Here they are shown to say what is meant by them: the exact result, on the numbers without sign, on
those with sign, or on the lowest four bits, does not fit (`addition_exact`, `subtraction_exact`).
-/

namespace Rerun.X64

/-- A number that a word of `w` bits does not hold. -/
def Exceeds (w : Nat) (x : Int) : Prop := x < 0 ∨ 2 ^ w ≤ x

/-- A number that a word of `w` bits, the highest of them for the sign, does not hold. -/
def ExceedsSigned (w : Nat) (x : Int) : Prop := x < -2 ^ (w - 1) ∨ 2 ^ (w - 1) ≤ x

instance (w : Nat) (x : Int) : Decidable (Exceeds w x) := inferInstanceAs (Decidable (_ ∨ _))

instance (w : Nat) (x : Int) : Decidable (ExceedsSigned w x) := inferInstanceAs (Decidable (_ ∨ _))

/-- A result and its flags stand for an operation that gives `x` on the numbers without sign, `s` on
those with sign, and `n` on the lowest four bits. -/
structure Exact {w : Nat} (x s n : Int) (r : BitVec w) (f : Flags) : Prop where
  result : (r.toNat : Int) = x % 2 ^ w
  carry : f.carry = true ↔ Exceeds w x
  overflow : f.overflow = true ↔ ExceedsSigned w s
  adjust : f.adjust = true ↔ Exceeds 4 n

/-- The flags that only look at the result describe it. -/
structure Flags.Describe {w : Nat} (r : BitVec w) (f : Flags) : Prop where
  zero : f.zero = true ↔ r = 0#w
  sign : f.sign = true ↔ r.toInt < 0
  parity : f.parity = true ↔ (List.range 8).countP (r.getLsbD ·) % 2 = 0

namespace Flags

theorem describe_ofResult {w : Nat} (r : BitVec w) : Describe r (ofResult r) where
  zero := beq_iff_eq
  sign := by simp [ofResult, BitVec.msb_eq_toInt]
  parity := beq_iff_eq

end Flags

variable {w : Nat} (a b : BitVec w)

/-! ## The carry out of bit 3 -/

/-- Where the terms and the sum are added up without a carry, the lowest four bits of the terms do
not reach sixteen. -/
theorem getLsbD_xor_add (hw : 4 < w) :
    (a ^^^ b ^^^ (a + b)).getLsbD 4 = decide (16 ≤ a.toNat % 16 + b.toNat % 16) := by
  rw [BitVec.getLsbD_xor, BitVec.getLsbD_xor, BitVec.getLsbD_add hw, BitVec.carry]
  cases a.getLsbD 4 <;> cases b.getLsbD 4 <;> simp

theorem exceeds_four_add : Exceeds 4 ((a.toNat % 16 : Nat) + (b.toNat % 16 : Nat) : Int)
    ↔ 16 ≤ a.toNat % 16 + b.toNat % 16 := by
  unfold Exceeds
  omega

theorem exceeds_four_sub : Exceeds 4 ((a.toNat % 16 : Nat) - (b.toNat % 16 : Nat) : Int)
    ↔ a.toNat % 16 < b.toNat % 16 := by
  unfold Exceeds
  omega

/-- The sum of the difference and its second term carries where the difference borrows. -/
theorem carries_sub_add_iff (hw : 4 ≤ w) :
    16 ≤ (a - b).toNat % 16 + b.toNat % 16 ↔ a.toNat % 16 < b.toNat % 16 := by
  have hsum : ((a - b).toNat + b.toNat) % 2 ^ w = a.toNat := by
    rw [← BitVec.toNat_add, BitVec.sub_add_cancel]
  have hnibble : ((a - b).toNat + b.toNat) % 16 = a.toNat % 16 := by
    have hdvd : 16 ∣ 2 ^ w := Nat.pow_dvd_pow 2 hw
    rw [← hsum, Nat.mod_mod_of_dvd _ hdvd]
  omega

theorem getLsbD_xor_sub (hw : 4 < w) :
    (a ^^^ b ^^^ (a - b)).getLsbD 4 = decide (a.toNat % 16 < b.toNat % 16) := by
  have hxor : a ^^^ b ^^^ (a - b) = (a - b) ^^^ b ^^^ ((a - b) + b) := by
    rw [BitVec.sub_add_cancel]
    ac_rfl
  rw [hxor, getLsbD_xor_add _ _ hw, decide_eq_decide]
  exact carries_sub_add_iff a b (Nat.le_of_lt hw)

/-! ## The carry out of the word -/

/-- A sum is smaller than its first term exactly if it has been cut. -/
theorem add_lt_left_iff : a + b < a ↔ Exceeds w (a.toNat + b.toNat) := by
  have ha := a.isLt
  have hb := b.isLt
  have hcut : a.toNat + b.toNat < 2 ^ w ∨ 2 ^ w ≤ a.toNat + b.toNat := Nat.lt_or_ge _ _
  rw [BitVec.lt_def, BitVec.toNat_add]
  unfold Exceeds
  rcases hcut with h | h
  · rw [Nat.mod_eq_of_lt h]
    norm_cast
    omega
  · rw [Nat.mod_eq_sub_mod h, Nat.mod_eq_of_lt (by omega)]
    norm_cast
    omega

theorem lt_iff_exceeds_sub : a < b ↔ Exceeds w (a.toNat - b.toNat) := by
  have ha : (a.toNat : Int) < 2 ^ w := by exact_mod_cast a.isLt
  rw [BitVec.lt_def]
  unfold Exceeds
  omega

/-! ## The exact results -/

theorem msb_xor_add : ((a ^^^ (a + b)) &&& (b ^^^ (a + b))).msb = a.saddOverflow b := by
  rw [BitVec.saddOverflow_eq]
  simp only [BitVec.msb_and, BitVec.msb_xor]
  cases a.msb <;> cases b.msb <;> cases (a + b).msb <;> rfl

theorem msb_xor_sub : ((a ^^^ b) &&& (a ^^^ (a - b))).msb = a.ssubOverflow b := by
  rw [BitVec.ssubOverflow_eq]
  simp only [BitVec.msb_and, BitVec.msb_xor]
  cases a.msb <;> cases b.msb <;> cases (a - b).msb <;> rfl

theorem addition_exact (hw : 4 < w) :
    Exact (a.toNat + b.toNat) (a.toInt + b.toInt) ((a.toNat % 16 : Nat) + (b.toNat % 16 : Nat))
      (addition a b).1 (addition a b).2 where
  result := by
    show ((a + b).toNat : Int) = _
    rw [BitVec.toNat_add]
    norm_cast
  carry := by
    rw [← add_lt_left_iff]
    exact decide_eq_true_iff
  overflow := by
    show ((a ^^^ (a + b)) &&& (b ^^^ (a + b))).msb = true ↔ _
    rw [msb_xor_add, BitVec.saddOverflow, Bool.or_eq_true, decide_eq_true_iff, decide_eq_true_iff]
    exact Or.comm
  adjust := by
    rw [exceeds_four_add]
    show (a ^^^ b ^^^ (a + b)).getLsbD 4 = true ↔ _
    rw [getLsbD_xor_add a b hw, decide_eq_true_iff]

theorem subtraction_exact (hw : 4 < w) :
    Exact (a.toNat - b.toNat) (a.toInt - b.toInt) ((a.toNat % 16 : Nat) - (b.toNat % 16 : Nat))
      (subtraction a b).1 (subtraction a b).2 where
  result := by
    have hb := b.isLt
    show ((a - b).toNat : Int) = _
    rw [BitVec.toNat_sub, Int.natCast_mod, Nat.cast_add, Nat.cast_sub hb.le, Nat.cast_pow,
      Nat.cast_two, show (2 ^ w - b.toNat + a.toNat : Int) = a.toNat - b.toNat + 2 ^ w by ring,
      Int.add_emod_right]
  carry := by
    rw [← lt_iff_exceeds_sub]
    exact decide_eq_true_iff
  overflow := by
    show ((a ^^^ b) &&& (a ^^^ (a - b))).msb = true ↔ _
    rw [msb_xor_sub, BitVec.ssubOverflow, Bool.or_eq_true, decide_eq_true_iff, decide_eq_true_iff]
    exact Or.comm
  adjust := by
    rw [exceeds_four_sub]
    show (a ^^^ b ^^^ (a - b)).getLsbD 4 = true ↔ _
    rw [getLsbD_xor_sub a b hw, decide_eq_true_iff]

theorem zero_subtraction_iff : (subtraction a b).2.zero = true ↔ a = b := by
  show (a - b == 0#w) = true ↔ _
  rw [beq_iff_eq]
  constructor
  · intro h
    rw [← BitVec.sub_add_cancel a b, h, BitVec.zero_add]
  · rintro rfl
    exact BitVec.sub_self a

/-- The sign of a difference is wrong exactly if the difference overflows, so the two together order
the terms. -/
theorem sign_ne_overflow_iff :
    (subtraction a b).2.sign ≠ (subtraction a b).2.overflow ↔ a.toInt < b.toInt := by
  have hsign : (subtraction a b).2.sign = decide ((a.toInt - b.toInt).bmod (2 ^ w) < 0) := by
    show (a - b).msb = _
    rw [BitVec.msb_eq_toInt, BitVec.toInt_sub]
  have hoverflow : (subtraction a b).2.overflow = a.ssubOverflow b := msb_xor_sub a b
  rw [hsign, hoverflow]
  cases h : a.ssubOverflow b with
  | false =>
    have hexact := BitVec.toInt_sub_of_not_ssubOverflow (ne_true_of_eq_false h)
    rw [BitVec.toInt_sub] at hexact
    rw [hexact, ne_eq, Bool.not_eq_false, decide_eq_true_iff]
    omega
  | true =>
    rw [BitVec.ssubOverflow, Bool.or_eq_true, decide_eq_true_iff, decide_eq_true_iff] at h
    rw [ne_eq, Bool.not_eq_true, decide_eq_false_iff_not]
    rcases h with h | h
    · have := BitVec.twoPow_le_toInt_sub_toInt_iff.1 h
      omega
    · have := BitVec.toInt_sub_toInt_lt_twoPow_iff.1 h
      omega

end Rerun.X64
