import Rerun.Proofs.Carries
import Rerun.Proofs.Windows
import Rerun.X64.Step

/-!
# Integer instructions

An integer instruction with a general register for its destination computes what the numbers say:
the exact result cut to the width of the destination, carries where the result does not fit, and the
flags that describe it. It changes nothing else (`Instruction.step_computes`).
-/

namespace Rerun

namespace X64

namespace Flags

/-- The arithmetic flags in a flags word. -/
def ofWord (w : Word) : Flags where
  carry := w.getLsbD 0
  parity := w.getLsbD 2
  adjust := w.getLsbD 4
  zero := w.getLsbD 6
  sign := w.getLsbD 7
  overflow := w.getLsbD 11

theorem ofWord_word (f : Flags) : ofWord f.word = f := by
  rcases f with ⟨_ | _, _ | _, _ | _, _ | _, _ | _, _ | _⟩ <;> rfl

end Flags

namespace Mnemonic

/-- The operations on integers. -/
def integers : List Mnemonic := [add, sub, cmp, and, or, xor, test, inc, dec, neg, not]

/-- Whether an integer operation has no source. -/
def isUnary : Mnemonic → Bool
  | inc | dec | neg | not => true
  | _ => false

/-- Whether an integer operation only sets flags. -/
def discards : Mnemonic → Bool
  | cmp | test => true
  | _ => false

/-- What an operation gives on numbers of any size. -/
def numeric? : Mnemonic → Option (Int → Int → Int)
  | add => some fun a b => a + b
  | sub | cmp => some fun a b => a - b
  | inc => some fun a _ => a + 1
  | dec => some fun a _ => a - 1
  | neg => some fun a _ => -a
  | _ => none

/-- What an operation does to every bit. -/
def bitwise? : Mnemonic → Option (Bool → Bool → Bool)
  | and | test => some fun a b => a && b
  | or => some fun a b => a || b
  | xor => some fun a b => a ^^ b
  | not => some fun a _ => !a
  | _ => none

/-- The result `r` and the flags `new` that operation `m` has to give for `a`, `b` and the flags
`old` before it. -/
structure Computes (m : Mnemonic) {w : Nat} (a b r : BitVec w) (old new : Flags) : Prop where
  result : ∀ op, m.numeric? = some op → (r.toNat : Int) = op a.toNat b.toNat % 2 ^ w
  carry : ∀ op, m.numeric? = some op → m ∉ [inc, dec] →
    (new.carry = true ↔ Exceeds w (op a.toNat b.toNat))
  kept : m ∈ [inc, dec] → new.carry = old.carry
  overflow : ∀ op, m.numeric? = some op →
    (new.overflow = true ↔ ExceedsSigned w (op a.toInt b.toInt))
  adjust : ∀ op, m.numeric? = some op →
    (new.adjust = true ↔ Exceeds 4 (op (a.toNat % 16 : Nat) (b.toNat % 16 : Nat)))
  bits : ∀ op, m.bitwise? = some op → ∀ j < w, r.getLsbD j = op (a.getLsbD j) (b.getLsbD j)
  clear : m ∈ [and, or, xor, test] →
    new.carry = false ∧ new.overflow = false ∧ new.adjust = false
  describe : m ≠ not → Flags.Describe r new
  untouched : m = not → new = old

/-- The result and the flags by the rules of the interpreter. -/
def outcome (m : Mnemonic) {w : Nat} (a b : BitVec w) : BitVec w × Flags :=
  match m with
  | add => addition a b
  | sub | cmp => subtraction a b
  | inc => addition a 1
  | dec => subtraction a 1
  | neg => subtraction 0 a
  | and | test => bitwise (a &&& b)
  | or => bitwise (a ||| b)
  | xor => bitwise (a ^^^ b)
  | not => bitwise (~~~a)
  | _ => bitwise a

/-- The flags that an operation sets. -/
def affected : Mnemonic → Word
  | inc | dec => Flags.arithmetic &&& ~~~Flags.carryBit
  | not => 0
  | _ => Flags.arithmetic

theorem affected_and (m : Mnemonic) : m.affected &&& Flags.arithmetic = m.affected := by
  unfold affected
  split <;> decide

end Mnemonic

end X64

namespace RegisterFile

open X64

variable (file : RegisterFile) (r : Gpr)

/-- The arithmetic flags. -/
def status : Flags := Flags.ofWord file.flags

/-- A write to register `r` of `file` may have led to `file'`, whatever the flags are: the other
slots are the same, and so is the rest of the 64-bit register unless 32 bits were written, which
clears it. -/
structure Alters (file' : RegisterFile) : Prop where
  slots : ∀ slot, slot ≠ .flags → slot ≠ r.slot → ∀ width,
    file'.value slot width = file.value slot width
  rest : ∀ j < 64, ¬r.Shows j → (file'.full r.number).getLsbD j
    = (decide (r.width ≠ .dword) && (file.full r.number).getLsbD j)

/-! ## The flags word -/

theorem getLsbD_updateFlags (f : Flags) (m : Word) {j : Nat} (hj : j < 64) :
    (file.updateFlags f m).flags.getLsbD j
      = if m.getLsbD j then f.word.getLsbD j else file.flags.getLsbD j :=
  getLsbD_replace hj

theorem status_updateFlags (f : Flags) : (file.updateFlags f Flags.arithmetic).status = f := by
  conv_rhs => rw [← f.ofWord_word]
  simp only [status, Flags.ofWord, Flags.mk.injEq]
  refine ⟨?_, ?_, ?_, ?_, ?_, ?_⟩ <;> exact file.getLsbD_updateFlags f _ (by decide)

theorem status_updateFlags_but_carry (f : Flags) :
    (file.updateFlags f (Flags.arithmetic &&& ~~~Flags.carryBit)).status
      = { f with carry := file.status.carry } := by
  conv_rhs => rw [← f.ofWord_word]
  simp only [status, Flags.ofWord, Flags.mk.injEq]
  refine ⟨?_, ?_, ?_, ?_, ?_, ?_⟩ <;> exact file.getLsbD_updateFlags f _ (by decide)

theorem updateFlags_zero (f : Flags) : file.updateFlags f 0 = file := by
  have hflags : (file.flags &&& ~~~0#64) ||| (f.word &&& 0#64) = file.flags := by
    rw [BitVec.not_zero, BitVec.and_allOnes, BitVec.and_zero, BitVec.or_zero]
  exact congrArg (fun flags => { file with flags }) hflags

/-- The bits of the flags word that no arithmetic flag stands in stay as they are. -/
theorem flags_updateFlags {m : Word} (f : Flags) (hm : m &&& Flags.arithmetic = m) :
    (file.updateFlags f m).flags &&& ~~~Flags.arithmetic
      = file.flags &&& ~~~Flags.arithmetic := by
  refine BitVec.eq_of_getLsbD_eq fun j hj => ?_
  rw [BitVec.getLsbD_and, BitVec.getLsbD_and, getLsbD_updateFlags file f m hj]
  cases hbit : Flags.arithmetic.getLsbD j with
  | true => simp [hbit]
  | false =>
    have hm' : m.getLsbD j = false := by rw [← hm, BitVec.getLsbD_and, hbit, Bool.and_false]
    simp [hm']

theorem alters_writeGpr (f : Flags) (m v : Word) :
    file.Alters r ((file.updateFlags f m).writeGpr r v) where
  slots slot hflags hslot width := by
    rw [value_writeGpr_of_ne _ r _ hslot, value_updateFlags file f m hflags]
  rest j hj hrest := getLsbD_full_writeGpr_of_not_mem (file.updateFlags f m) r _ hj hrest

end RegisterFile

namespace X64

/-! ## The rules -/

namespace Mnemonic

variable {w : Nat} (a b : BitVec w)

/-- An operation with an exact result sets the flags by it. -/
theorem outcome_exact (hw : 8 ≤ w) {m : Mnemonic} {op : Int → Int → Int}
    (hop : m.numeric? = some op) :
    Exact (op a.toNat b.toNat) (op a.toInt b.toInt)
      (op (a.toNat % 16 : Nat) (b.toNat % 16 : Nat)) (m.outcome a b).1 (m.outcome a b).2 := by
  have hone : (1#w).toNat = 1 := BitVec.toNat_one (by omega)
  have hone' : (1#w).toInt = 1 := BitVec.toInt_one (by omega)
  have hinc := addition_exact a 1#w (by omega)
  have hdec := subtraction_exact a 1#w (by omega)
  have hneg := subtraction_exact 0#w a (by omega)
  simp only [hone, hone', BitVec.toNat_zero, BitVec.toInt_zero, Nat.one_mod, Nat.zero_mod,
    Nat.cast_one, Nat.cast_zero, zero_sub] at hinc hdec hneg
  cases m <;> cases hop
  case add => exact addition_exact a b (by omega)
  case sub | cmp => exact subtraction_exact a b (by omega)
  case inc => exact hinc
  case dec => exact hdec
  case neg => exact hneg

theorem outcome_bits {m : Mnemonic} {op : Bool → Bool → Bool} (hop : m.bitwise? = some op) {j : Nat}
    (hj : j < w) : (m.outcome a b).1.getLsbD j = op (a.getLsbD j) (b.getLsbD j) := by
  cases m <;> cases hop <;> simp [outcome, bitwise, hj]

theorem outcome_describe (m : Mnemonic) :
    Flags.Describe (m.outcome a b).1 (m.outcome a b).2 := by
  have h := Flags.describe_ofResult (m.outcome a b).1
  cases m <;> exact ⟨h.zero, h.sign, h.parity⟩

/-- The flags after an operation. -/
def flagsAfter (m : Mnemonic) (old : Flags) : Flags :=
  match m with
  | inc | dec => { (m.outcome a b).2 with carry := old.carry }
  | not => old
  | _ => (m.outcome a b).2

theorem status_updateFlags (m : Mnemonic) (file : RegisterFile) :
    (file.updateFlags (m.outcome a b).2 m.affected).status = m.flagsAfter a b file.status := by
  cases m
  case inc | dec => exact file.status_updateFlags_but_carry _
  case not => exact congrArg _ (file.updateFlags_zero _)
  all_goals exact file.status_updateFlags _

theorem computes (hw : 8 ≤ w) (m : Mnemonic) (old : Flags) :
    m.Computes a b (m.outcome a b).1 old (m.flagsAfter a b old) where
  result op hop := (outcome_exact a b hw hop).result
  carry op hop hm := by
    rw [← (outcome_exact a b hw hop).carry]
    cases m
    case inc | dec => exact absurd (by decide) hm
    case not => cases hop
    all_goals rfl
  kept hm := by
    simp only [List.mem_cons, List.not_mem_nil, or_false] at hm
    rcases hm with rfl | rfl <;> rfl
  overflow op hop := by
    rw [← (outcome_exact a b hw hop).overflow]
    cases m <;> first | rfl | cases hop
  adjust op hop := by
    rw [← (outcome_exact a b hw hop).adjust]
    cases m <;> first | rfl | cases hop
  bits op hop j hj := outcome_bits a b hop hj
  clear hm := by
    simp only [List.mem_cons, List.not_mem_nil, or_false] at hm
    rcases hm with rfl | rfl | rfl | rfl <;> exact ⟨rfl, rfl, rfl⟩
  describe hm := by
    have h := outcome_describe a b m
    cases m
    case not => exact absurd rfl hm
    all_goals exact ⟨h.zero, h.sign, h.parity⟩
  untouched hm := by rw [hm]; rfl

end Mnemonic

namespace Instruction

/-- The content of the source, a general register or an immediate. -/
def source? (i : Instruction) (file : RegisterFile) : Option Word :=
  if i.mnemonic.isUnary then some 0 else
    match i.operand 1 with
    | .register (.gpr s) => some (file.readGpr s)
    | .immediate _ value => some value
    | _ => none

variable {i : Instruction} {r : Gpr} {b : Word} {file : RegisterFile}

/-- The registers after an integer instruction. -/
def after (i : Instruction) (r : Gpr) (b : Word) (file : RegisterFile) : RegisterFile :=
  let a := (file.readGpr r).setWidth r.width.bits
  let (res, f) := i.mnemonic.outcome a (b.setWidth _)
  let file' := file.updateFlags f i.mnemonic.affected
  if i.mnemonic.discards then file' else file'.writeGpr r (res.setWidth 64)

theorem run_operand (hsrc : i.source? file = some b) (hm : i.mnemonic.isUnary = false) :
    (Emulation.operand i 1).run file = .ok b file := by
  rw [source?, hm, if_neg Bool.false_ne_true] at hsrc
  unfold Emulation.operand
  split at hsrc
  · next s hop => rw [hop, ← Option.some.inj hsrc]; rfl
  · next v hop => rw [hop, ← Option.some.inj hsrc]; rfl
  · cases hsrc

theorem run_register (hdst : i.operand 0 = .register (.gpr r)) :
    (Emulation.register i 0).run file = .ok (.gpr r) file := by
  rw [Emulation.register, hdst]
  rfl

theorem run_binary (hdst : i.operand 0 = .register (.gpr r))
    (hb : (Emulation.operand i 1).run file = .ok b file) (keeps : Bool)
    (op : {w : Nat} → BitVec w → BitVec w → BitVec w × Flags) :
    let x := op ((file.readGpr r).setWidth r.width.bits) (b.setWidth r.width.bits)
    let file' := file.updateFlags x.2 Flags.arithmetic
    (Emulation.binary i keeps op).run file
      = .ok () (if keeps then file'.writeGpr r (x.1.setWidth 64) else file') := by
  have hread : (Emulation.read (.gpr r)).run file = .ok (file.readGpr r) file := rfl
  unfold Emulation.binary
  rw [EStateM.run_bind, run_register hdst]
  dsimp only
  rw [EStateM.run_bind, hread]
  dsimp only
  rw [EStateM.run_bind, hb]
  dsimp only
  rw [EStateM.run_bind]
  cases keeps <;> rfl

theorem run_unary (hdst : i.operand 0 = .register (.gpr r)) (affected : Word)
    (op : {w : Nat} → BitVec w → BitVec w × Flags) :
    let x := op ((file.readGpr r).setWidth r.width.bits)
    (Emulation.unary i affected op).run file
      = .ok () ((file.updateFlags x.2 affected).writeGpr r (x.1.setWidth 64)) := by
  unfold Emulation.unary
  rw [EStateM.run_bind, run_register hdst]
  rfl

/-- An integer instruction follows the rule of its operation. -/
theorem run_compute (hm : i.mnemonic ∈ Mnemonic.integers)
    (hdst : i.operand 0 = .register (.gpr r)) (hsrc : i.source? file = some b) :
    i.compute.run file = .ok () (i.after r b file) := by
  have hb := run_operand hsrc
  simp only [Mnemonic.integers, List.mem_cons, List.not_mem_nil, or_false] at hm
  rcases hm with h | h | h | h | h | h | h | h | h | h | h <;> rw [h] at hb <;>
    simp only [compute, after, h]
  iterate 7 exact run_binary hdst (hb rfl) _ _
  all_goals exact run_unary hdst _ _

/-- An integer instruction proceeds, and its operation is computed at the width of the destination.
-/
theorem step_computes (hflow : i.flow = .next) (hm : i.mnemonic ∈ Mnemonic.integers)
    (hdst : i.operand 0 = .register (.gpr r)) (hsrc : i.source? file = some b) :
    let x := (file.readGpr r).setWidth r.width.bits
    let y := b.setWidth r.width.bits
    ∃ file' res, i.step.run file = .ok .proceed file'
      ∧ i.mnemonic.Computes x y res file.status file'.status
      ∧ file'.readGpr r = (if i.mnemonic.discards then file.readGpr r else res.setWidth 64)
      ∧ (if i.mnemonic.discards then
          ∀ slot, slot ≠ .flags → ∀ width, file'.value slot width = file.value slot width
        else file.Alters r file')
      ∧ file'.flags &&& ~~~Flags.arithmetic = file.flags &&& ~~~Flags.arithmetic
      ∧ (i.mnemonic = .cmp → (file'.status.zero = true ↔ x = y)
          ∧ (file'.status.carry = true ↔ x.toNat < y.toNat)
          ∧ (file'.status.sign ≠ file'.status.overflow ↔ x.toInt < y.toInt)) := by
  intro x y
  have hrun : i.step.run file = .ok .proceed (i.after r b file) := by
    rw [step, hflow]
    show (i.compute >>= _).run file = _
    rw [EStateM.run_bind, run_compute hm hdst hsrc]
    rfl
  set out := i.mnemonic.outcome x y with hout
  set file₁ := file.updateFlags out.2 i.mnemonic.affected with hfile₁
  have hafter : i.after r b file
      = if i.mnemonic.discards then file₁ else file₁.writeGpr r (out.1.setWidth 64) := rfl
  have hflags : (i.after r b file).flags = file₁.flags := by
    rw [hafter]
    split
    · rfl
    · exact file₁.flags_writeGpr r _
  have hstatus : (i.after r b file).status = i.mnemonic.flagsAfter x y file.status := by
    rw [RegisterFile.status, hflags]
    exact i.mnemonic.status_updateFlags x y file
  refine ⟨_, out.1, hrun, ?_, ?_, ?_, ?_, ?_⟩
  · rw [hstatus]
    exact Mnemonic.computes x y r.width.eight_le_bits i.mnemonic file.status
  · rw [hafter]
    split
    · rfl
    · rw [RegisterFile.readGpr_writeGpr, BitVec.setWidth_setWidth_of_le _ r.width.bits_le,
        BitVec.setWidth_eq]
  · rw [hafter]
    split
    · exact fun slot hslot => file.value_updateFlags _ _ hslot
    · exact file.alters_writeGpr r _ _ _
  · rw [hflags]
    exact file.flags_updateFlags _ i.mnemonic.affected_and
  · intro hcmp
    rw [hstatus, hcmp]
    exact ⟨zero_subtraction_iff x y, decide_eq_true_iff, sign_ne_overflow_iff x y⟩

/-- In `add ah, bl` the sum of `0x90` and `0xf1` fits a byte with a sign, and none without. -/
theorem step_computes_high :
    let file := (RegisterFile.zero.setFull 0 0x9000).setFull 3 0xf1
    let i : Instruction :=
      ⟨.add, .next, [.register (.gpr (.high 0)), .register (.gpr (.low 3 .byte))], [], "add ah,bl"⟩
    ∃ file', i.step.run file = .ok .proceed file' ∧ file'.readGpr (.high 0) = 0x81
      ∧ file'.status.carry = true ∧ file'.status.overflow = false := by
  intro file i
  have hdst : i.operand 0 = .register (.gpr (.high 0)) := rfl
  have hsrc : i.source? file = some 0xf1 := by decide +kernel
  obtain ⟨file', res, hrun, hcomp, hread, -⟩ := step_computes rfl (by decide) hdst hsrc
  have hx : (file.readGpr (.high 0)).setWidth 8 = 0x90#8 := by decide +kernel
  change i.mnemonic.Computes ((file.readGpr (.high 0)).setWidth 8) 0xf1#8 res _ _ at hcomp
  have hresult := hcomp.result _ rfl
  have hcarry := hcomp.carry _ rfl (by decide)
  have hoverflow := hcomp.overflow _ rfl
  rw [hx] at hresult hcarry hoverflow
  refine ⟨file', hrun, ?_, ?_, ?_⟩
  · have hres : (res.toNat : Int) = 0x81 := hresult
    rw [hread, if_neg (by decide)]
    refine BitVec.eq_of_toNat_eq ?_
    rw [BitVec.toNat_setWidth, Int.ofNat_inj.1 hres]
    rfl
  · rw [hcarry]
    decide
  · rw [← Bool.not_eq_true, hoverflow]
    decide

end Instruction

end X64

end Rerun
