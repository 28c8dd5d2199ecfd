import Mathlib.Data.Nat.Digits.Defs
import Rerun.Proofs.Saved

/-!
# What a difference tells

The text of a value leaves out no digit that matters: words of one text are one word, and so are
byte strings (`word_injective`, `number_injective`). A comparison is empty exactly if the two
register files agree on every field. Otherwise it names the first field on which they do not, and
shows it with two texts that differ; compared the other way round, the texts change places
(`compare_exact`).
-/

namespace Rerun

namespace Hex

theorem digitChar_inj : ∀ a < 16, ∀ b < 16, Nat.digitChar a = Nat.digitChar b → a = b := by
  decide

/-- No two numbers have the same digits. -/
theorem digits_injective : Function.Injective digits := by
  intro a
  induction a using Nat.strong_induction_on with
  | _ a ih =>
    intro b h
    unfold digits at h ih
    rw [Nat.toDigits_eq_if (n := a) (by decide), Nat.toDigits_eq_if (n := b) (by decide)] at h
    by_cases ha : a < 16
    · by_cases hb : b < 16
      · rw [if_pos ha, if_pos hb] at h
        exact digitChar_inj a ha b hb (List.singleton_inj.1 h)
      · rw [if_pos ha, if_neg hb] at h
        rcases List.singleton_eq_append_iff.1 h with ⟨hnil, -⟩ | ⟨-, hnil⟩
        · exact absurd hnil Nat.toDigits_ne_nil
        · cases hnil
    · by_cases hb : b < 16
      · rw [if_neg ha, if_pos hb] at h
        rcases List.append_eq_singleton_iff.1 h with ⟨hnil, -⟩ | ⟨-, hnil⟩
        · exact absurd hnil Nat.toDigits_ne_nil
        · cases hnil
      · rw [if_neg ha, if_neg hb] at h
        obtain ⟨hhigh, hlow⟩ := List.append_inj' h rfl
        have hdiv : a / 16 = b / 16 := ih (a / 16) (by omega) hhigh
        have hmod : a % 16 = b % 16 :=
          digitChar_inj _ (Nat.mod_lt a (by decide)) _ (Nat.mod_lt b (by decide))
            (List.singleton_inj.1 hlow)
        omega

theorem pair_injective : Function.Injective pair := by
  intro a b h
  simp only [pair, List.cons.injEq, and_true] at h
  have ha := a.isLt
  have hb := b.isLt
  have hhigh := digitChar_inj (a.toNat / 16) (by omega) (b.toNat / 16) (by omega) h.1
  have hlow := digitChar_inj (a.toNat % 16) (by omega) (b.toNat % 16) (by omega) h.2
  exact BitVec.eq_of_toNat_eq (by omega)

theorem pairs_injective : Function.Injective pairs := by
  intro as
  induction as with
  | nil =>
    rintro (_ | ⟨b, bs⟩) h
    · rfl
    · cases h
  | cons a as ih =>
    rintro (_ | ⟨b, bs⟩) h
    · cases h
    · simp only [pairs, List.flatMap_cons] at h
      obtain ⟨hpair, hrest⟩ := List.append_inj h rfl
      rw [pair_injective hpair, ih hrest]

theorem word_injective : Function.Injective word := by
  intro a b h
  have hdigits := String.ofList_injective h
  simp only [List.cons.injEq, true_and] at hdigits
  exact BitVec.eq_of_toNat_eq (digits_injective hdigits)

theorem number_injective : Function.Injective number := by
  intro as bs h
  have hpairs := String.ofList_injective h
  simp only [List.cons.injEq, true_and] at hpairs
  exact List.reverse_inj.1 (pairs_injective hpairs)

end Hex

/-- What a slot holds in two register files is the same if it is written the same. -/
theorem RegisterFile.text_value_inj {a b : RegisterFile} {slot : Slot} {width : Nat} :
    (a.value slot width).text = (b.value slot width).text
      ↔ a.value slot width = b.value slot width := by
  refine ⟨fun h => ?_, congrArg Value.text⟩
  cases slot with
  | simd i => exact congrArg Value.vector (Hex.number_injective h)
  | _ => exact congrArg Value.word (Hex.word_injective h)

/-- The report of a comparison the other way round. -/
def Mismatch.swap (m : Mismatch) : Mismatch := ⟨m.field, m.rerun, m.instrumented⟩

namespace Arch

variable (arch : Arch) (a b : RegisterFile)

theorem compare_swap : arch.compare b a = (arch.compare a b).map Mismatch.swap := by
  have hagrees : ∀ f : Field, f.agrees arch b a = f.agrees arch a b := fun f => by
    rw [Bool.eq_iff_iff, Field.agrees_iff, Field.agrees_iff]
    exact eq_comm
  simp only [compare, hagrees, Option.map_map]
  rfl

theorem nodup_names : (arch.schema.map (·.name)).Nodup := by
  cases arch <;> decide +kernel

/-- A comparison finds no difference if every field holds the same, and otherwise names the first
one that does not, with the two texts of its value, which differ. Compared the other way round, the
texts change places. -/
theorem compare_exact :
    (arch.compare a b = none ↔ ∀ f ∈ arch.schema,
      a.value f.slot arch.vectorBytes = b.value f.slot arch.vectorBytes)
    ∧ (∀ m, arch.compare a b = some m ↔ ∃ pre f post, arch.schema = pre ++ f :: post
        ∧ (∀ g ∈ pre, a.value g.slot arch.vectorBytes = b.value g.slot arch.vectorBytes)
        ∧ a.value f.slot arch.vectorBytes ≠ b.value f.slot arch.vectorBytes
        ∧ m = ⟨f.name, (a.value f.slot arch.vectorBytes).text,
            (b.value f.slot arch.vectorBytes).text⟩)
    ∧ (∀ m, arch.compare a b = some m → m.instrumented ≠ m.rerun)
    ∧ arch.compare b a = (arch.compare a b).map Mismatch.swap
    ∧ (arch.schema.map (·.slot)).Nodup ∧ (arch.schema.map (·.name)).Nodup := by
  refine ⟨?_, fun m => ?_, fun m hm => ?_, arch.compare_swap a b, arch.nodup_slots,
    arch.nodup_names⟩
  · rw [compare_eq_none_iff]
    simp only [Field.agrees_iff]
  · rw [compare_eq_some_iff]
    simp only [Field.agrees_iff, ← Bool.not_eq_true, eq_comm (a := m)]
    rfl
  · obtain ⟨pre, f, post, -, -, hne, rfl⟩ := compare_eq_some_iff.1 hm
    rw [← Bool.not_eq_true, Field.agrees_iff] at hne
    exact fun htext => hne (RegisterFile.text_value_inj.1 htext)

/-- `rax` stands before `r15`, and the high bytes of a vector register do not count everywhere. -/
theorem compare_exact_ordered :
    let a := RegisterFile.zero
    let b := ((a.setWord (.gpr 15) 1).setWord (.gpr 0) 0xf0).setSimd 0 (1 <<< 320)
    x64.compare a b = some ⟨"rax", "0x0", "0xf0"⟩ ∧ x64.compare b a = some ⟨"rax", "0xf0", "0x0"⟩
      ∧ "0x0" ≠ "0xf0" ∧ arm64.compare (b.setWord (.gpr 0) 0) (a.setWord (.gpr 15) 1) = none := by
  intro a b
  obtain ⟨-, hsome, htexts, hswap, -⟩ := x64.compare_exact a b
  have hfirst : x64.compare a b = some ⟨"rax", "0x0", "0xf0"⟩ :=
    (hsome _).2 ⟨x64.schema.take 3, ⟨"rax", .gpr 0⟩, x64.schema.drop 4, by decide +kernel,
      by decide +kernel, by decide +kernel, by decide +kernel⟩
  refine ⟨hfirst, by rw [hswap, hfirst]; rfl, htexts _ hfirst, ?_⟩
  exact (arm64.compare_exact _ _).1.2 (by decide +kernel)

end Arch

end Rerun
