import Rerun.Proofs.Integers
import Rerun.Proofs.Overlaps

/-!
# Computed addresses

An instruction that computes an address adds up a base, a scaled index and a displacement. The
processor cuts the sum to the width of the registers in it, and then fits it into the destination.
Here the sum is cut to a word and to the destination only, so the two differ where a sum of 32-bit
registers goes on beyond 32 bits into a 64-bit destination, and nowhere else (`step_address_iff`).
-/

namespace Rerun.X64

namespace Address

/-- The registers that an address names. -/
def registers (a : Address) : List Register := a.base.toList ++ a.index.toList

/-- There is a base or an index, and these are general registers of width `w`. -/
def Sized (a : Address) (w : Width) : Prop :=
  a.registers ≠ [] ∧ ∀ r ∈ a.registers, ∃ n, r = .gpr (.low n w)

/-- What a part of an address adds to it. -/
def part (file : RegisterFile) : Option Register → Nat
  | some (.gpr r) => (file.readGpr r).toNat
  | _ => 0

/-- The sum of all parts, without a bound. -/
def sum (a : Address) (file : RegisterFile) : Nat :=
  part file a.base + part file a.index * a.scale.toNat + a.displacement.toNat

/-- The address as the processor forms it from registers of width `w`. -/
def effective (a : Address) (w : Width) (file : RegisterFile) : Nat := a.sum file % 2 ^ w.bits

variable {a : Address} {w : Width} {file : RegisterFile}

theorem run_readPart {p : Option Register} (hp : ∀ r ∈ p, ∃ n, r = .gpr (.low n w)) :
    (Emulation.readPart p).run file = .ok (BitVec.ofNat 64 (part file p)) file := by
  cases p with
  | none => rfl
  | some r =>
    obtain ⟨n, rfl⟩ := hp r rfl
    have hread : (Emulation.readPart (some (.gpr (.low n w)))).run file
        = .ok (file.readGpr (.low n w)) file := rfl
    rw [hread, part, BitVec.ofNat_toNat, BitVec.setWidth_eq]

/-- Words add up as the numbers do, cut to a word. -/
theorem ofNat_sum (a : Address) (file : RegisterFile) :
    BitVec.ofNat 64 (part file a.base) + BitVec.ofNat 64 (part file a.index) * a.scale
        + a.displacement
      = BitVec.ofNat 64 (a.sum file) := by
  rw [sum, BitVec.ofNat_add, BitVec.ofNat_add, BitVec.ofNat_mul, BitVec.ofNat_toNat,
    BitVec.ofNat_toNat, BitVec.setWidth_eq, BitVec.setWidth_eq]

/-- The bits that a destination of width `d` takes of the sum, and of the sum cut to `w`. -/
theorem setWidth_effective_iff (hw : w = .dword ∨ w = .qword) (d : Width) (n : Nat) :
    (BitVec.ofNat 64 n).setWidth d.bits = (BitVec.ofNat 64 (n % 2 ^ w.bits)).setWidth d.bits
      ↔ w = .qword ∨ d ≠ .qword ∨ n % 2 ^ 64 < 2 ^ 32 := by
  have hcut : ∀ m, ((BitVec.ofNat 64 m).setWidth d.bits).toNat = m % 2 ^ d.bits := fun m => by
    rw [BitVec.toNat_setWidth, BitVec.toNat_ofNat,
      Nat.mod_mod_of_dvd _ (Nat.pow_dvd_pow 2 d.bits_le)]
  rw [← BitVec.toNat_inj, hcut, hcut]
  rcases hw with rfl | rfl
  · cases d
    case qword =>
      simp only [Width.bits, reduceCtorEq, ne_eq, not_true_eq_false, false_or]
      omega
    all_goals
      simp only [Width.bits, reduceCtorEq, ne_eq, not_false_eq_true, true_or, or_true, iff_true]
      omega
  · simp only [true_or, iff_true]
    exact (Nat.mod_mod_of_dvd n (Nat.pow_dvd_pow 2 d.bits_le)).symm

/-- The sum of two 32-bit registers. -/
def halves (m n : Fin 16) : Address :=
  ⟨some (.gpr (.low m .dword)), some (.gpr (.low n .dword)), 1, 0, false⟩

theorem sized_halves (m n : Fin 16) : (halves m n).Sized .dword :=
  ⟨List.cons_ne_nil _ _,
    List.forall_mem_cons.2 ⟨⟨m, rfl⟩, List.forall_mem_cons.2 ⟨⟨n, rfl⟩, nofun⟩⟩⟩

end Address

namespace Instruction

variable {i : Instruction} {r : Gpr} {a : Address} {w : Width} {file : RegisterFile}

theorem run_loadAddress (hdst : i.operand 0 = .register (.gpr r)) (hsrc : i.operand 1 = .memory a)
    (hip : a.ipRelative = false) (ha : a.Sized w) :
    (Emulation.loadAddress i).run file
      = .ok () (file.writeGpr r (BitVec.ofNat 64 (a.sum file))) := by
  have hbase : (Emulation.readPart a.base).run file = .ok _ file :=
    Address.run_readPart fun r hr => ha.2 r (List.mem_append_left _ (Option.mem_toList.2 hr))
  have hindex : (Emulation.readPart a.index).run file = .ok _ file :=
    Address.run_readPart fun r hr => ha.2 r (List.mem_append_right _ (Option.mem_toList.2 hr))
  unfold Emulation.loadAddress
  rw [EStateM.run_bind, run_register hdst]
  dsimp only
  rw [hsrc]
  simp only [hip, Bool.false_eq_true, ↓reduceIte]
  rw [EStateM.run_bind, hbase]
  dsimp only
  rw [EStateM.run_bind, hindex]
  dsimp only
  rw [Address.ofNat_sum]
  rfl

/-- An instruction that computes an address proceeds and changes nothing but its destination. It
leaves what the processor leaves unless a sum of 32-bit registers goes into a destination of 64 bits
and is, cut to a word, beyond 32 bits. -/
theorem step_address_iff (hflow : i.flow = .next) (hm : i.mnemonic = .lea)
    (hdst : i.operand 0 = .register (.gpr r)) (hsrc : i.operand 1 = .memory a)
    (hip : a.ipRelative = false) (hw : w = .dword ∨ w = .qword) (ha : a.Sized w) :
    ∃ file', i.step.run file = .ok .proceed file'
      ∧ (file'.readGpr r).toNat = a.sum file % 2 ^ r.width.bits
      ∧ file.Alters r file' ∧ file'.flags = file.flags
      ∧ (file' = file.writeGpr r (BitVec.ofNat 64 (a.effective w file))
          ↔ w = .qword ∨ r.width ≠ .qword ∨ a.sum file % 2 ^ 64 < 2 ^ 32) := by
  have hcompute : i.compute.run file = .ok () (file.writeGpr r (BitVec.ofNat 64 (a.sum file))) := by
    rw [compute, hm]
    exact run_loadAddress hdst hsrc hip ha
  have hrun : i.step.run file
      = .ok .proceed (file.writeGpr r (BitVec.ofNat 64 (a.sum file))) := by
    rw [step, hflow]
    show (i.compute >>= _).run file = _
    rw [EStateM.run_bind, hcompute]
    rfl
  refine ⟨_, hrun, ?_, ?_, file.flags_writeGpr r _, ?_⟩
  · have hbits : 2 ^ r.width.bits ≤ 2 ^ 64 := Nat.pow_le_pow_right (by decide) r.width.bits_le
    have hlt : a.sum file % 2 ^ r.width.bits < 2 ^ 64 :=
      Nat.lt_of_lt_of_le (Nat.mod_lt _ (Nat.two_pow_pos _)) hbits
    rw [RegisterFile.readGpr_writeGpr, BitVec.toNat_setWidth, BitVec.toNat_setWidth,
      BitVec.toNat_ofNat, Nat.mod_mod_of_dvd _ (Nat.pow_dvd_pow 2 r.width.bits_le),
      Nat.mod_eq_of_lt hlt]
  · have halters := file.alters_writeGpr r {} 0 (BitVec.ofNat 64 (a.sum file))
    rwa [file.updateFlags_zero] at halters
  · rw [file.writeGpr_eq_iff r]
    exact Address.setWidth_effective_iff hw r.width _

/-- The accumulator receives the address `a`. -/
def loadAccumulator (a : Address) (text : String) : Instruction :=
  ⟨.lea, .next, [.register (.gpr (Gpr.full Gpr.accumulator)), .memory a], [], text⟩

/-- The low halves of the registers `m` and `n` add up to `2 ^ 32`. -/
def wrapping (m n : Fin 16) : RegisterFile := (RegisterFile.zero.setFull m 0xffffffff).setFull n 1

theorem step_address_iff_wrapping :
    let file := wrapping 3 1
    ∃ file', (loadAccumulator (.halves 3 1) "lea rax,[ebx+ecx]").step.run file = .ok .proceed file'
      ∧ (file'.readGpr (Gpr.full 0)).toNat = 2 ^ 32
      ∧ file' ≠ file.writeGpr (Gpr.full 0)
          (BitVec.ofNat 64 ((Address.halves 3 1).effective .dword file)) := by
  intro file
  have hsum : (Address.halves 3 1).sum file = 2 ^ 32 := by decide +kernel
  obtain ⟨file', hrun, hread, -, -, hiff⟩ :=
    @step_address_iff (loadAccumulator (.halves 3 1) "lea rax,[ebx+ecx]") _ _ _ file
      rfl rfl rfl rfl rfl (.inl rfl) (Address.sized_halves 3 1)
  refine ⟨file', hrun, ?_, fun heq => ?_⟩
  · rw [hsum] at hread
    exact hread
  · rcases hiff.1 heq with h | h | h
    · cases h
    · exact h rfl
    · rw [hsum] at h
      exact absurd h (by decide)

/-- A sum of two 32-bit registers that the processor cuts to zero is left in a 64-bit register as
`2 ^ 32`. -/
theorem wrapped_address_kept :
    let a := Address.halves 3 1
    let i := loadAccumulator a "lea rax,[ebx+ecx]"
    let file := wrapping 3 1
    i.flow = .next ∧ i.mnemonic = .lea ∧ i.operand 0 = .register (.gpr (Gpr.full 0))
      ∧ i.operand 1 = .memory a ∧ a.ipRelative = false ∧ a.Sized .dword
      ∧ a.effective .dword file = 0
      ∧ ∃ file', i.step.run file = .ok .proceed file'
        ∧ file'.readGpr (Gpr.full 0) = 0x100000000 ∧ file' ≠ file.writeGpr (Gpr.full 0) 0 := by
  refine ⟨rfl, rfl, rfl, rfl, rfl, Address.sized_halves 3 1, by decide +kernel, _, rfl,
    by decide +kernel, fun heq => ?_⟩
  have hread := congrArg (·.readGpr (Gpr.full 0)) heq
  exact absurd hread (by decide +kernel)

end Instruction

end Rerun.X64
