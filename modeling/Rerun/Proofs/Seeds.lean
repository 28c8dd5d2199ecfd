import Mathlib.Data.List.Nodup
import Mathlib.Data.Nat.ModEq
import Mathlib.Data.Nat.Prime.Basic
import Rerun.Proofs.Streams

/-!
# Different seeds

Each step of the mixing can be undone: a shift to the right leaves the highest bits as they are
(`xorShift_injective`), and an odd factor has no divisor in common with the number of words
(`mul_injective_of_odd`). So a word tells which state it comes from. The states move on by an odd
number and pass through all words before one comes back: until then no word of a stream is said
twice (`nodup_words_iff`). Register files of different seeds differ in the first field already
(`compare_random`).
-/

namespace Rerun

namespace Word

theorem xorShift_injective {n : Nat} (hn : 0 < n) :
    Function.Injective fun w : Word => w ^^^ (w >>> n) := by
  intro a b h
  -- from the highest bit downward: what is shifted onto a bit is known already
  have hbits : ∀ k j, 64 ≤ j + k → a.getLsbD j = b.getLsbD j := by
    intro k
    induction k with
    | zero => exact fun j hj => by rw [BitVec.getLsbD_of_ge a j hj, BitVec.getLsbD_of_ge b j hj]
    | succ k ih =>
      intro j hj
      have hxor := congrArg (·.getLsbD j) h
      simp only [BitVec.getLsbD_xor, BitVec.getLsbD_ushiftRight, ih (n + j) (by omega)] at hxor
      exact Bool.xor_left_inj.1 hxor
  exact BitVec.eq_of_getLsbD_eq fun j _ => hbits 64 j (Nat.le_add_left 64 j)

theorem mul_injective_of_odd {c : Word} (hc : Odd c.toNat) :
    Function.Injective fun w : Word => w * c := by
  intro a b h
  have hmod : a.toNat * c.toNat ≡ b.toNat * c.toNat [MOD 2 ^ 64] := by
    rw [Nat.ModEq, ← BitVec.toNat_mul, ← BitVec.toNat_mul]
    exact congrArg BitVec.toNat h
  have hcoprime : Nat.Coprime (2 ^ 64) c.toNat := hc.coprime_two_left.pow_left 64
  exact BitVec.eq_of_toNat_eq
    ((hmod.cancel_right_of_coprime hcoprime).eq_of_lt_of_lt a.isLt b.isLt)

end Word

namespace SplitMix

theorem mix_injective : Function.Injective mix := by
  have hfirst := Word.xorShift_injective (by decide : 0 < 30)
  have hsecond := Word.xorShift_injective (by decide : 0 < 27)
  have hthird := Word.xorShift_injective (by decide : 0 < 31)
  have hmul := Word.mul_injective_of_odd (c := 0xbf58476d1ce4e5b9) (by decide)
  have hmul' := Word.mul_injective_of_odd (c := 0x94d049bb133111eb) (by decide)
  exact hthird.comp (hmul'.comp (hsecond.comp (hmul.comp hfirst)))

variable (g : SplitMix)

theorem state_after (n : Nat) : (g.after n).state = g.state + BitVec.ofNat 64 n * gamma := by
  induction n with
  | zero =>
    rw [BitVec.zero_mul, BitVec.add_zero]
    rfl
  | succ n ih =>
    have hnext : (g.after (n + 1)).state = (g.after n).state + gamma := by
      rw [after_add]
      rfl
    rw [hnext, ih, BitVec.ofNat_add, BitVec.add_mul, BitVec.add_assoc, BitVec.one_mul]

theorem word_eq (i : Nat) : g.word i = mix (g.state + BitVec.ofNat 64 (i + 1) * gamma) := by
  rw [← state_after, after_add]
  rfl

/-- A stream says a word again after all others have been said. -/
theorem word_eq_word_iff {i j : Nat} : g.word i = g.word j ↔ i ≡ j [MOD 2 ^ 64] := by
  have hgamma := Word.mul_injective_of_odd (c := gamma) (by decide)
  rw [word_eq, word_eq, mix_injective.eq_iff, BitVec.add_right_inj, hgamma.eq_iff,
    ← BitVec.toNat_inj, BitVec.toNat_ofNat, BitVec.toNat_ofNat]
  exact ⟨Nat.ModEq.add_right_cancel' 1, Nat.ModEq.add_right 1⟩

theorem nodup_words_iff {n : Nat} : (g.words n).1.Nodup ↔ n ≤ 2 ^ 64 := by
  rw [words_eq, List.nodup_map_iff_inj_on List.nodup_range]
  simp only [List.mem_range, word_eq_word_iff]
  constructor
  · intro hinj
    by_contra hlt
    have hzero := hinj 0 (by omega) (2 ^ 64) (by omega) (Nat.mod_self (2 ^ 64)).symm
    omega
  · intro hle i hi j hj hmod
    exact hmod.eq_of_lt_of_lt (by omega) (by omega)

end SplitMix

namespace Arch

/-- The field that is compared first takes a word. -/
theorem schema_eq_cons (arch : Arch) : ∃ f rest, arch.schema = f :: rest
    ∧ (f.name = match arch with | x64 => "rdi" | arm64 => "x0") ∧ ∀ v, f.slot ≠ .simd v := by
  cases arch with
  | x64 => exact ⟨_, _, rfl, rfl, fun _ h => Slot.noConfusion h⟩
  | arm64 => exact ⟨_, _, rfl, rfl, fun _ h => Slot.noConfusion h⟩

theorem compare_random (arch : Arch) {s t : Word} (h : s ≠ t) {f : Field} {rest : List Field}
    (hschema : arch.schema = f :: rest) (hword : ∀ v, f.slot ≠ .simd v) :
    arch.compare (.random arch s) (.random arch t)
      = some (f.mismatch arch (.random arch s) (.random arch t)) := by
  have hvalue := fun seed => RegisterFile.value_random arch seed (i := 0)
    (by rw [hschema]; rfl) hword arch.vectorBytes
  refine compare_eq_some_iff.2 ⟨[], f, rest, hschema, by simp, ?_, rfl⟩
  rw [← Bool.not_eq_true, Field.agrees_iff, hvalue, hvalue]
  intro heq
  have hstates := SplitMix.mix_injective (Value.word.inj heq)
  exact h ((BitVec.add_left_inj _).1 hstates)

end Arch

namespace SplitMix

/-- Random register files of two seeds already differ in the first field, and a stream is free of
repetitions up to the number of words there are, and no further. -/
theorem seeds_told_apart :
    (∀ (arch : Arch) (s t : Word), s ≠ t →
      ∃ m, arch.compare (.random arch s) (.random arch t) = some m
        ∧ arch.schema.head?.map (·.name) = some m.field
        ∧ m.field = match arch with | .x64 => "rdi" | .arm64 => "x0")
    ∧ ∀ (g : SplitMix) (n : Nat), (g.words n).1.Nodup ↔ n ≤ 2 ^ 64 := by
  refine ⟨fun arch s t h => ?_, fun g n => g.nodup_words_iff⟩
  obtain ⟨f, rest, hschema, hname, hword⟩ := arch.schema_eq_cons
  refine ⟨_, arch.compare_random h hschema hword, ?_, hname⟩
  rw [hschema]
  rfl

/-- The second seed is the state that the first one reaches with its first word. -/
theorem seeds_told_apart_following :
    let g : SplitMix := ⟨0⟩
    g.state ≠ (g.after 1).state
      ∧ (∃ m, Arch.arm64.compare (.random .arm64 g.state) (.random .arm64 (g.after 1).state) = some m
        ∧ m.field = "x0")
      ∧ (g.words (2 ^ 64)).1.Nodup ∧ ¬(g.words (2 ^ 64 + 1)).1.Nodup := by
  intro g
  have hne : g.state ≠ (g.after 1).state := by decide +kernel
  obtain ⟨hapart, hnodup⟩ := seeds_told_apart
  obtain ⟨m, hm, -, hfield⟩ := hapart .arm64 _ _ hne
  exact ⟨hne, ⟨m, hm, hfield⟩, (hnodup g _).2 le_rfl, mt (hnodup g _).1 (by omega)⟩

end SplitMix

end Rerun
