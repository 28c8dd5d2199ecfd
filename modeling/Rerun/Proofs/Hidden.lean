import Rerun.Proofs.Edits
import Rerun.Proofs.Runs
import Rerun.Proofs.Saved

/-!
# Slots outside the schema

The x86-64 schema leaves out general register 4, whose place the stack pointer has taken, and the
sixteen general registers that only the other architecture has. No instruction reads or writes one
of these (`step_blind`), and so no run does (`run_commutes`). Register files that compare equal
lead to the same ending and to register files that compare equal, and a comparison of two runs from
one register file misses nothing (`execute_captured`).
-/

namespace Rerun

namespace Slot

/-- Whether the x86-64 schema leaves the slot out. -/
def hidden : Slot → Bool
  | gpr i => i.val == 4 || decide (16 ≤ i.val)
  | _ => false

/-- The hidden slots are those that no field of the schema is about. -/
theorem hidden_iff {slot : Slot} : slot.hidden ↔ ∀ f ∈ Arch.x64.schema, f.slot ≠ slot := by
  cases slot with
  | gpr i => revert i; decide
  | flags => decide
  | extra i => revert i; decide
  | sp => decide
  | simd i => revert i; decide

theorem hidden_iff_gpr {slot : Slot} :
    slot.hidden ↔ ∃ i : Fin 32, slot = .gpr i ∧ (i = 4 ∨ 16 ≤ i) := by
  cases slot with
  | gpr i =>
    have hval : hidden (.gpr i) ↔ i = 4 ∨ 16 ≤ i := by
      revert i
      decide
    simpa using hval
  | _ => simp [hidden]

end Slot

namespace RegisterFile

variable {a b : RegisterFile}

/-- The register file with the hidden slots of another one. -/
@[irreducible]
def withHidden (a b : RegisterFile) : RegisterFile :=
  { a with gpr := Vector.ofFn fun i => if (Slot.gpr i).hidden then b.gpr.get i else a.gpr.get i }

theorem gpr_withHidden (a b : RegisterFile) (i : Fin 32) :
    (a.withHidden b).gpr.get i
      = if (Slot.gpr i).hidden then b.gpr.get i else a.gpr.get i := by
  rw [withHidden]
  exact Vector.getElem_ofFn _

theorem flags_withHidden (a b : RegisterFile) : (a.withHidden b).flags = a.flags := by
  simp only [withHidden]

theorem extra_withHidden (a b : RegisterFile) : (a.withHidden b).extra = a.extra := by
  simp only [withHidden]

theorem sp_withHidden (a b : RegisterFile) : (a.withHidden b).sp = a.sp := by
  simp only [withHidden]

theorem simd_withHidden (a b : RegisterFile) : (a.withHidden b).simd = a.simd := by
  simp only [withHidden]

/-- A register file is what its slots hold. -/
theorem ext_value (h : ∀ slot, a.value slot 64 = b.value slot 64) : a = b := by
  obtain ⟨gpr, flags, extra, sp, simd⟩ := a
  obtain ⟨gpr', flags', extra', sp', simd'⟩ := b
  obtain rfl : gpr = gpr' := Vector.ext fun i hi => by
    simpa [value] using h (.gpr ⟨i, hi⟩)
  obtain rfl : flags = flags' := by simpa [value] using h .flags
  obtain rfl : extra = extra' := Vector.ext fun i hi => by
    simpa [value] using h (.extra ⟨i, hi⟩)
  obtain rfl : sp = sp' := by simpa [value] using h .sp
  obtain rfl : simd = simd' := Vector.ext fun i hi => by
    simpa [value, Bytes.low_eq_low_iff] using h (.simd ⟨i, hi⟩)
  rfl

theorem value_withHidden (a b : RegisterFile) (slot : Slot) (width : Nat) :
    (a.withHidden b).value slot width
      = if slot.hidden then b.value slot width else a.value slot width := by
  cases slot with
  | gpr i =>
    show Value.word ((a.withHidden b).gpr.get i) = _
    rw [gpr_withHidden]
    split <;> rfl
  | flags => simp [value, Slot.hidden, flags_withHidden]
  | extra i => simp [value, Slot.hidden, extra_withHidden]
  | sp => simp [value, Slot.hidden, sp_withHidden]
  | simd i => simp [value, Slot.hidden, simd_withHidden]

theorem withHidden_self (a : RegisterFile) : a.withHidden a = a :=
  ext_value fun slot => by rw [value_withHidden, ite_self]

/-- Two register files compare equal if they differ in hidden slots only. -/
theorem compare_eq_none_iff_withHidden : Arch.x64.compare a b = none ↔ a.withHidden b = b := by
  rw [Arch.compare_eq_none_iff]
  constructor
  · intro h
    refine ext_value fun slot => ?_
    rw [value_withHidden]
    split
    · rfl
    · next hslot =>
      obtain ⟨f, hf, rfl⟩ : ∃ f ∈ Arch.x64.schema, f.slot = slot := by
        simpa [Slot.hidden_iff] using hslot
      exact Field.agrees_iff.1 (h f hf)
  · intro h f hf
    have hslot : ¬f.slot.hidden := fun hidden => Slot.hidden_iff.1 hidden f hf rfl
    rw [Field.agrees_iff, ← h, value_withHidden, if_neg hslot]

theorem withHidden_withHidden_left (a b c : RegisterFile) :
    (a.withHidden b).withHidden c = a.withHidden c :=
  ext_value fun slot => by
    rw [value_withHidden, value_withHidden, value_withHidden]
    split <;> rfl

theorem withHidden_withHidden_right (a b c : RegisterFile) :
    a.withHidden (b.withHidden c) = a.withHidden c :=
  ext_value fun slot => by
    rw [value_withHidden, value_withHidden, value_withHidden]
    split <;> rfl

theorem withHidden_eq_self_iff :
    a.withHidden b = a ↔ ∀ i : Fin 32, i = 4 ∨ 16 ≤ i → a.gpr.get i = b.gpr.get i := by
  constructor
  · intro h i hi
    have hhidden : (Slot.gpr i).hidden := Slot.hidden_iff_gpr.2 ⟨i, rfl, hi⟩
    rw [← h, gpr_withHidden, if_pos hhidden]
  · intro h
    refine ext_value fun slot => ?_
    rw [value_withHidden]
    split
    · next hhidden =>
      obtain ⟨i, rfl, hi⟩ := Slot.hidden_iff_gpr.1 hhidden
      exact congrArg Value.word (h i hi).symm
    · rfl

/-! ## Registers by name -/

theorem not_hidden_castLE {n : Fin 16} (hn : n ≠ X64.Gpr.stackPointer) :
    (Slot.gpr (n.castLE (by decide))).hidden = false := by
  revert n
  decide

theorem full_withHidden (a b : RegisterFile) (n : Fin 16) :
    (a.withHidden b).full n = a.full n := by
  unfold full
  split
  · rw [sp_withHidden]
  · next hn =>
    refine (gpr_withHidden a b _).trans ?_
    rw [not_hidden_castLE hn, if_neg Bool.false_ne_true]
    rfl

theorem setFull_withHidden (a b : RegisterFile) (n : Fin 16) (w : Word) :
    (a.withHidden b).setFull n w = (a.setFull n w).withHidden b := by
  unfold setFull
  split
  · simp only [withHidden]
  · next hn =>
    simp only [withHidden, mk.injEq, and_true]
    refine Vector.ext fun i hi => ?_
    have hset : (a.gpr.set (n.castLE (by decide : 16 ≤ 32)) w).get ⟨i, hi⟩
        = if (n.castLE (by decide : 16 ≤ 32)).val = i then w else a.gpr.get ⟨i, hi⟩ :=
      Vector.getElem_set _ hi
    simp only [Vector.getElem_set, Vector.getElem_ofFn, hset]
    by_cases heq : (n.castLE (by decide : 16 ≤ 32)).val = i
    · have hi : (Slot.gpr ⟨i, hi⟩).hidden = false := by
        rw [← not_hidden_castLE hn]
        simp only [← heq]
      simp only [heq, ↓reduceIte, hi, Bool.false_eq_true]
    · simp only [heq, ↓reduceIte]

theorem readGpr_withHidden (a b : RegisterFile) (r : X64.Gpr) :
    (a.withHidden b).readGpr r = a.readGpr r := by
  rw [readGpr, readGpr, full_withHidden]

theorem writeGpr_withHidden (a b : RegisterFile) (r : X64.Gpr) (w : Word) :
    (a.withHidden b).writeGpr r w = (a.writeGpr r w).withHidden b := by
  unfold writeGpr
  cases r.width <;> simp only [full_withHidden, setFull_withHidden]

theorem setWord_extra_withHidden (a b : RegisterFile) (n : Fin 8) (w : Word) :
    (a.withHidden b).setWord (.extra n) w = (a.setWord (.extra n) w).withHidden b := by
  simp only [setWord, withHidden]

theorem setSimd_withHidden (a b : RegisterFile) (i : Fin 32) (v : Simd) :
    (a.withHidden b).setSimd i v = (a.setSimd i v).withHidden b := by
  simp only [setSimd, withHidden]

theorem updateFlags_withHidden (a b : RegisterFile) (f : X64.Flags) (affected : Word) :
    (a.withHidden b).updateFlags f affected = (a.updateFlags f affected).withHidden b := by
  simp only [updateFlags, withHidden]

end RegisterFile

namespace X64

namespace Emulation

variable {α β : Type}

/-- The result with the hidden slots of another register file. -/
def withHidden (b : RegisterFile) :
    EStateM.Result EmulationError RegisterFile α → EStateM.Result EmulationError RegisterFile α
  | .ok x file => .ok x (file.withHidden b)
  | .error e file => .error e (file.withHidden b)

/-- `x` neither reads nor writes a hidden slot. -/
def Blind (x : Emulation α) : Prop :=
  ∀ file b, x.run (file.withHidden b) = withHidden b (x.run file)

theorem blind_pure (a : α) : Blind (pure a) := fun _ _ => rfl

theorem blind_throw (e : EmulationError) : Blind (throw e : Emulation α) := fun _ _ => rfl

theorem blind_modify {f : RegisterFile → RegisterFile}
    (hf : ∀ file b, f (file.withHidden b) = (f file).withHidden b) : Blind (modify f) :=
  fun file b => congrArg (EStateM.Result.ok ()) (hf file b)

theorem blind_read {f : RegisterFile → α} (hf : ∀ file b, f (file.withHidden b) = f file) :
    Blind (do return f (← get)) :=
  fun file b => congrArg (EStateM.Result.ok · (file.withHidden b)) (hf file b)

theorem Blind.bind {x : Emulation α} {f : α → Emulation β} (hx : x.Blind) (hf : ∀ a, (f a).Blind) :
    Blind (x >>= f) := by
  intro file b
  rw [EStateM.run_bind, EStateM.run_bind, hx file b]
  cases x.run file with
  | ok a file' => exact hf a file' b
  | error e file' => rfl

/-! ## Operands -/

theorem register_blind (i : Instruction) (n : Nat) : (register i n).Blind := by
  unfold register
  cases i.operand n with
  | register r => exact blind_pure r
  | _ => exact blind_throw _

theorem read_blind (r : Register) : (read r).Blind := by
  cases r with
  | gpr g => exact blind_read fun file b => file.readGpr_withHidden b g
  | mask n => exact blind_read fun file b => by rw [RegisterFile.extra_withHidden]
  | _ => exact blind_throw _

theorem write_blind (r : Register) (w : Word) : (write r w).Blind := by
  cases r with
  | gpr g => exact blind_modify fun file b => file.writeGpr_withHidden b g w
  | mask n => exact blind_modify fun file b => file.setWord_extra_withHidden b n w
  | _ => exact blind_throw _

theorem operand_blind (i : Instruction) (n : Nat) : (operand i n).Blind := by
  unfold operand
  cases i.operand n with
  | register r => exact read_blind r
  | immediate _ w => exact blind_pure w
  | _ => exact blind_throw _

theorem readPart_blind (r : Option Register) : (readPart r).Blind := by
  cases r with
  | none => exact blind_pure 0
  | some r => exact read_blind r

theorem lane_blind (i : Instruction) (n : Nat) : (lane i n).Blind := by
  refine (register_blind i n).bind fun r => ?_
  split
  · exact blind_pure _
  · exact blind_throw _

theorem updateFlags_blind (f : Flags) (affected : Word) :
    Blind (modify fun file => file.updateFlags f affected) :=
  blind_modify fun file b => file.updateFlags_withHidden b f affected

/-! ## Operations -/

theorem move_blind (i : Instruction) : (move i).Blind :=
  (register_blind i 0).bind fun dst => (operand_blind i 1).bind fun v => write_blind dst v

theorem binary_blind (i : Instruction) (keeps : Bool)
    (op : {w : Nat} → BitVec w → BitVec w → BitVec w × Flags) : (binary i keeps op).Blind := by
  refine (register_blind i 0).bind fun dst => (read_blind dst).bind fun a =>
    (operand_blind i 1).bind fun b => (updateFlags_blind _ _).bind fun _ => ?_
  cases keeps with
  | true => exact write_blind dst _
  | false => exact blind_pure ()

theorem unary_blind (i : Instruction) (affected : Word)
    (op : {w : Nat} → BitVec w → BitVec w × Flags) : (unary i affected op).Blind :=
  (register_blind i 0).bind fun dst => (read_blind dst).bind fun _ =>
    (updateFlags_blind _ _).bind fun _ => write_blind dst _

theorem loadAddress_blind (i : Instruction) : (loadAddress i).Blind := by
  refine (register_blind i 0).bind fun dst => ?_
  cases i.operand 1 with
  | memory a =>
    -- an address relative to the instruction fails before anything is read
    have haddress : Blind (do
        let base ← readPart a.base
        let index ← readPart a.index
        write dst (base + index * a.scale + a.displacement)) :=
      (readPart_blind a.base).bind fun base => (readPart_blind a.index).bind fun index =>
        write_blind dst _
    by_cases hip : a.ipRelative
    · simp only [hip, ↓reduceIte]
      exact (blind_throw _).bind fun _ => haddress
    · simp only [hip, Bool.false_eq_true, ↓reduceIte]
      exact haddress
  | _ => exact blind_throw _

theorem exchange_blind (i : Instruction) : (exchange i).Blind :=
  (register_blind i 0).bind fun a => (register_blind i 1).bind fun b =>
    (read_blind a).bind fun _ => (read_blind b).bind fun _ =>
      (write_blind a _).bind fun _ => write_blind b _

theorem vector_blind (i : Instruction) (op : BitVec 128 → BitVec 128 → BitVec 128) :
    (vector i op).Blind :=
  (lane_blind i 0).bind fun dst => (lane_blind i 1).bind fun src =>
    blind_modify fun file b => by
      rw [RegisterFile.simd_withHidden, RegisterFile.setSimd_withHidden]

end Emulation

namespace Instruction

open Emulation

theorem compute_blind (i : Instruction) : i.compute.Blind := by
  unfold compute
  split
  · exact blind_pure ()
  all_goals first
    | exact move_blind i
    | exact binary_blind i _ _
    | exact unary_blind i _ _
    | exact loadAddress_blind i
    | exact exchange_blind i
    | exact vector_blind i _
    | exact blind_throw _

/-- No instruction sees a hidden slot. -/
theorem step_blind (i : Instruction) : i.step.Blind := by
  unfold step
  cases i.flow with
  | next => exact i.compute_blind.bind fun _ => blind_pure _
  | interrupt | transaction | exception => exact blind_throw _
  | _ => exact blind_pure _

end Instruction

end X64

namespace Thread

open X64 Rerun.Action

variable {t u : Thread} {b c : Block}

/-! ## Runs -/

/-- The thread with the hidden slots of a register file. -/
def withHidden (t : Thread) (file : RegisterFile) : Thread :=
  t.setRegisters (t.registers.withHidden file)

theorem step_commutes (i : Instruction) (file : RegisterFile) :
    (step i).Commutes (·.withHidden file) := by
  intro t
  have hblind : i.step.run (t.withHidden file).registers
      = Emulation.withHidden file (i.step.run t.registers) := i.step_blind t.registers file
  constructor
  · simp only [step, modifyGet, MonadStateOf.modifyGet, Action.modifyGet, hblind]
    cases i.step.run t.registers <;> rfl
  · simp only [step, modifyGet, MonadStateOf.modifyGet, Action.modifyGet, hblind]
    cases i.step.run t.registers <;> rfl

theorem run_commutes (hb : b.CallFree) (file : RegisterFile) :
    (run b).Commutes (·.withHidden file) := by
  induction b with
  | nil => exact commutes_pure _ _
  | cons e rest ih =>
    obtain ⟨he, hrest⟩ := Block.callFree_cons.1 hb
    cases hc : e.content with
    | label =>
      rw [run_label hc]
      exact ih hrest
    | call c =>
      rw [Entry.call?, hc] at he
      cases he
    | machine i =>
      rw [run_machine hc]
      -- whether the run goes on is the same for both, because the outcome `o` is
      refine (step_commutes i file).bind fun o => ?_
      rcases o with e | s
      · exact commutes_pure _ _
      · cases s with
        | leave x => exact commutes_pure _ _
        | proceed => exact ih hrest

theorem execute_ends_of_ne (ht : t.arch ≠ .x64) :
    (execute b).Ends t (.ok (.refused (.arch t.arch))) t := by
  refine (ends_get t).bind ?_
  rw [if_neg ht]
  exact ends_pure _ _

/-- A run without calls ends without a fault, changes nothing but the registers, and does not see
the hidden ones. -/
theorem execute_ends_of_callFree (hb : b.CallFree) (t : Thread) :
    ∃ ending file, (execute b).Ends t (.ok ending) (t.setRegisters file)
      ∧ ∀ u : Thread, u.arch = t.arch → t.registers.withHidden u.registers = u.registers →
        (execute b).Ends u (.ok ending) (u.setRegisters (file.withHidden u.registers)) := by
  by_cases ht : t.arch = .x64
  · obtain ⟨ending, file, h⟩ := run_ends_of_callFree hb t
    refine ⟨ending, file, (execute_ends_iff ht).2 h, fun u hu hhidden => ?_⟩
    have hrun := (run_commutes hb u.registers).ends h
    have hcalls := run_onRegisters (callsOnRegisters_of_callFree hb)
    exact (execute_ends_iff (hu.trans ht)).2 (hcalls.ends hrun hhidden.symm)
  · refine ⟨.refused (.arch t.arch), t.registers, execute_ends_of_ne ht, fun u hu hhidden => ?_⟩
    rw [hhidden, ← hu]
    exact execute_ends_of_ne (hu ▸ ht)

theorem execute_keeps_hidden {r : Except Fault Ending} (hb : b.CallFree)
    (h : (execute b).Ends t r u) : u.registers.withHidden t.registers = u.registers := by
  obtain ⟨ending, file, hends, hhidden⟩ := execute_ends_of_callFree hb t
  obtain ⟨-, rfl⟩ := Ends.unique h hends
  have hkept := hhidden t rfl t.registers.withHidden_self
  exact (congrArg Thread.registers (Ends.unique hends hkept).2).symm

/-- From the same registers, two runs leave the same ones if these compare equal. -/
theorem execute_eq_of_compare {r q : Except Fault Ending} {t' u' : Thread} (hb : b.CallFree)
    (hc : c.CallFree) (hu : u.registers = t.registers) (ht' : (execute b).Ends t r t')
    (hu' : (execute c).Ends u q u')
    (hnone : Arch.x64.compare t'.registers u'.registers = none) : t'.registers = u'.registers := by
  -- what a comparison does not see, both runs have left as they found it
  have ht := execute_keeps_hidden hb ht'
  have hu := hu ▸ execute_keeps_hidden hc hu'
  calc t'.registers
    _ = t'.registers.withHidden t.registers := ht.symm
    _ = (t'.registers.withHidden u'.registers).withHidden t.registers :=
      (RegisterFile.withHidden_withHidden_left _ _ _).symm
    _ = u'.registers.withHidden t.registers := by
      rw [RegisterFile.compare_eq_none_iff_withHidden.1 hnone]
    _ = u'.registers := hu

/-- A block without calls ends the same way from registers that compare equal, and leaves registers
that compare equal. It leaves alone what the schema leaves out; so two such blocks, run from the
same registers, leave registers that compare equal only if they leave the same ones. -/
theorem execute_captured (hb : b.CallFree) :
    (∀ slot : Slot, (∀ f ∈ Arch.x64.schema, f.slot ≠ slot)
        ↔ ∃ i : Fin 32, slot = .gpr i ∧ (i = 4 ∨ 16 ≤ i))
    ∧ (∀ t u : Thread, u.arch = t.arch → Arch.x64.compare t.registers u.registers = none →
        ∃ ending t' u', (execute b).Ends t (.ok ending) t' ∧ (execute b).Ends u (.ok ending) u'
          ∧ Arch.x64.compare t'.registers u'.registers = none
          ∧ ∀ i : Fin 32, i = 4 ∨ 16 ≤ i → t'.registers.gpr.get i = t.registers.gpr.get i
            ∧ u'.registers.gpr.get i = u.registers.gpr.get i)
    ∧ ∀ c : Block, c.CallFree → ∀ t u t' u' r q, u.registers = t.registers →
        (execute b).Ends t r t' → (execute c).Ends u q u' →
          (Arch.x64.compare t'.registers u'.registers = none ↔ t'.registers = u'.registers) := by
  refine ⟨fun slot => ?_, fun t u hu hnone => ?_, fun c hc t u t' u' r q hu ht' hu' => ?_⟩
  · rw [← Slot.hidden_iff, Slot.hidden_iff_gpr]
  · rw [RegisterFile.compare_eq_none_iff_withHidden] at hnone
    obtain ⟨ending, file, hends, hhidden⟩ := execute_ends_of_callFree hb t
    have hends' := hhidden u hu hnone
    refine ⟨ending, _, _, hends, hends', ?_, fun i hi => ⟨?_, ?_⟩⟩
    · rw [RegisterFile.compare_eq_none_iff_withHidden]
      exact RegisterFile.withHidden_withHidden_right _ _ _
    · exact RegisterFile.withHidden_eq_self_iff.1 (execute_keeps_hidden hb hends) i hi
    · exact RegisterFile.withHidden_eq_self_iff.1 (execute_keeps_hidden hb hends') i hi
  · refine ⟨execute_eq_of_compare hb hc hu ht' hu', fun heq => ?_⟩
    rw [heq]
    exact Arch.compare_self _ _

/-- An addition to the stack pointer, a label and a return. -/
def stacking : Block :=
  [⟨0, .machine (.increment 4), true, none⟩, ⟨1, .label, false, none⟩,
    ⟨2, .machine .ret, true, none⟩]

/-- A thread with something in the general register that the stack pointer stands in for. -/
def shadowed : Thread :=
  (Thread.new 1 .x64).setRegisters (RegisterFile.zero.setWord (.gpr ⟨4, by decide⟩) 7)

theorem execute_captured_stacking :
    stacking.CallFree ∧ Arch.x64.compare (Thread.new 1 .x64).registers shadowed.registers = none
      ∧ ∃ ending t' u', (execute stacking).Ends (Thread.new 1 .x64) (.ok ending) t'
        ∧ (execute stacking).Ends shadowed (.ok ending) u'
        ∧ Arch.x64.compare t'.registers u'.registers = none
        ∧ ∀ i : Fin 32, i = 4 ∨ 16 ≤ i →
          t'.registers.gpr.get i = (Thread.new 1 .x64).registers.gpr.get i
            ∧ u'.registers.gpr.get i = shadowed.registers.gpr.get i :=
  have hcompare : Arch.x64.compare (Thread.new 1 .x64).registers shadowed.registers = none := by
    decide +kernel
  ⟨by decide, hcompare, (execute_captured (by decide)).2.1 _ _ rfl hcompare⟩

end Thread

end Rerun
