import Rerun.X64.Step

/-!
# What an instruction leads to

Whether an instruction lets control go on, hands it on or is refused is written in the instruction:
the registers have no say in it (`step_cases`). A refused instruction leaves them as they are, since
all operands are looked at before anything is written, and so does one that leaves the block.
-/

namespace Rerun.X64

namespace Emulation

variable {α β : Type}

/-- `x` is refused with `e`, whatever the registers hold, and leaves them alone. -/
def Refuses (x : Emulation α) (e : EmulationError) : Prop :=
  ∀ file, x.run file = .error e file

/-- `x` is not refused, whatever the registers hold. -/
def Completes (x : Emulation α) : Prop :=
  ∀ file, ∃ a file', x.run file = .ok a file'

/-- `x` is not refused and only looks at the registers. -/
def Reads (x : Emulation α) : Prop :=
  ∀ file, ∃ a, x.run file = .ok a file

/-- The registers have no say in whether `x` is refused. -/
def Settled (x : Emulation α) : Prop :=
  (∃ e, x.Refuses e) ∨ x.Completes

theorem Reads.completes {x : Emulation α} (h : x.Reads) : x.Completes := fun file =>
  let ⟨a, ha⟩ := h file
  ⟨a, file, ha⟩

theorem Refuses.bind {x : Emulation α} {e : EmulationError} (h : x.Refuses e)
    (f : α → Emulation β) : Refuses (x >>= f) e := fun file => by
  rw [EStateM.run_bind, h file]

theorem Reads.bind_refuses {x : Emulation α} {f : α → Emulation β} {e : EmulationError}
    (hx : x.Reads) (hf : ∀ a, (f a).Refuses e) : Refuses (x >>= f) e := fun file => by
  obtain ⟨a, ha⟩ := hx file
  rw [EStateM.run_bind, ha]
  exact hf a file

theorem Completes.bind {x : Emulation α} {f : α → Emulation β} (hx : x.Completes)
    (hf : ∀ a, (f a).Completes) : Completes (x >>= f) := fun file => by
  obtain ⟨a, file', ha⟩ := hx file
  obtain ⟨b, file'', hb⟩ := hf a file'
  exact ⟨b, file'', by rw [EStateM.run_bind, ha]; exact hb⟩

theorem completes_pure (a : α) : Completes (pure a) := fun file => ⟨a, file, rfl⟩

theorem completes_modify (f : RegisterFile → RegisterFile) : Completes (modify f) :=
  fun file => ⟨(), f file, rfl⟩

theorem refuses_throw (e : EmulationError) : Refuses (throw e : Emulation α) e := fun _ => rfl

/-- What looks at the registers and then goes on in a settled way is settled. -/
theorem settled_bind {x : Emulation α} {f : α → Emulation β} (hx : (∃ e, x.Refuses e) ∨ x.Reads)
    (hf : (∃ e, ∀ a, (f a).Refuses e) ∨ ∀ a, (f a).Completes) : Settled (x >>= f) := by
  rcases hx with ⟨e, hx⟩ | hx
  · exact .inl ⟨e, hx.bind f⟩
  · rcases hf with ⟨e, hf⟩ | hf
    · exact .inl ⟨e, hx.bind_refuses hf⟩
    · exact .inr (hx.completes.bind hf)

/-! ## Operands -/

/-- What needs a register operand is settled if it is for every register. -/
theorem settled_register_bind (i : Instruction) (n : Nat) {f : Register → Emulation β}
    (hf : ∀ r, (f r).Settled) : Settled (register i n >>= f) := by
  unfold register
  cases i.operand n with
  | register r => exact hf r
  | _ => exact .inl ⟨_, (refuses_throw _).bind f⟩

/-- A register that can be read can be written. -/
theorem read_refuses_or (r : Register) :
    (∃ e, (read r).Refuses e) ∨ (read r).Reads ∧ ∀ w, (write r w).Completes := by
  cases r with
  | gpr g => exact .inr ⟨fun _ => ⟨_, rfl⟩, fun _ => completes_modify _⟩
  | mask n => exact .inr ⟨fun _ => ⟨_, rfl⟩, fun _ => completes_modify _⟩
  | _ => exact .inl ⟨_, refuses_throw _⟩

theorem read_settled (r : Register) : (∃ e, (read r).Refuses e) ∨ (read r).Reads :=
  (read_refuses_or r).imp_right And.left

theorem write_settled (r : Register) :
    (∃ e, ∀ w, (write r w).Refuses e) ∨ ∀ w, (write r w).Completes := by
  cases r with
  | gpr g => exact .inr fun _ => completes_modify _
  | mask n => exact .inr fun _ => completes_modify _
  | _ => exact .inl ⟨_, fun _ => refuses_throw _⟩

theorem operand_settled (i : Instruction) (n : Nat) :
    (∃ e, (operand i n).Refuses e) ∨ (operand i n).Reads := by
  unfold operand
  cases i.operand n with
  | register r => exact read_settled r
  | immediate _ w => exact .inr fun _ => ⟨w, rfl⟩
  | _ => exact .inl ⟨_, refuses_throw _⟩

theorem readPart_settled (r : Option Register) :
    (∃ e, (readPart r).Refuses e) ∨ (readPart r).Reads := by
  cases r with
  | none => exact .inr fun _ => ⟨0, rfl⟩
  | some r => exact read_settled r

theorem lane_cases (i : Instruction) (n : Nat) :
    (∃ e, (lane i n).Refuses e) ∨ ∃ k, lane i n = pure k := by
  unfold lane register
  cases i.operand n with
  | register r =>
    cases r with
    | vector w k =>
      cases w with
      | xmm => exact .inr ⟨k, rfl⟩
      | _ => exact .inl ⟨_, fun _ => rfl⟩
    | _ => exact .inl ⟨_, fun _ => rfl⟩
  | _ => exact .inl ⟨_, fun _ => rfl⟩

/-! ## Operations -/

theorem move_settled (i : Instruction) : (move i).Settled :=
  settled_register_bind i 0 fun dst => settled_bind (operand_settled i 1) (write_settled dst)

theorem binary_settled (i : Instruction) (keeps : Bool)
    (op : {w : Nat} → BitVec w → BitVec w → BitVec w × Flags) : (binary i keeps op).Settled := by
  refine settled_register_bind i 0 fun dst => ?_
  rcases read_refuses_or dst with ⟨e, hr⟩ | ⟨hr, hw⟩
  · exact .inl ⟨e, hr.bind _⟩
  -- Both operands are looked at before the flags change, and `dst` can be written: it was read.
  rcases operand_settled i 1 with ⟨e, ho⟩ | ho
  · exact .inl ⟨e, hr.bind_refuses fun a => ho.bind _⟩
  refine .inr (hr.completes.bind fun a => ho.completes.bind fun b => ?_)
  refine (completes_modify _).bind fun _ => ?_
  cases keeps with
  | true => exact hw _
  | false => exact completes_pure ()

theorem unary_settled (i : Instruction) (affected : Word)
    (op : {w : Nat} → BitVec w → BitVec w × Flags) : (unary i affected op).Settled := by
  refine settled_register_bind i 0 fun dst => ?_
  rcases read_refuses_or dst with ⟨e, hr⟩ | ⟨hr, hw⟩
  · exact .inl ⟨e, hr.bind _⟩
  · exact .inr (hr.completes.bind fun a => (completes_modify _).bind fun _ => hw _)

theorem loadAddress_settled (i : Instruction) : (loadAddress i).Settled := by
  refine settled_register_bind i 0 fun dst => ?_
  cases i.operand 1 with
  | memory a =>
    by_cases hip : a.ipRelative
    · simp only [hip, ↓reduceIte]
      exact .inl ⟨_, (refuses_throw _).bind _⟩
    simp only [hip, Bool.false_eq_true, ↓reduceIte]
    rcases readPart_settled a.base with ⟨e, hb⟩ | hb
    · exact .inl ⟨e, hb.bind _⟩
    rcases readPart_settled a.index with ⟨e, hi⟩ | hi
    · exact .inl ⟨e, hb.bind_refuses fun _ => hi.bind _⟩
    rcases write_settled dst with ⟨e, hw⟩ | hw
    · exact .inl ⟨e, hb.bind_refuses fun _ => hi.bind_refuses fun _ => hw _⟩
    · exact .inr (hb.completes.bind fun _ => hi.completes.bind fun _ => hw _)
  | _ => exact .inl ⟨_, refuses_throw _⟩

theorem exchange_settled (i : Instruction) : (exchange i).Settled := by
  refine settled_register_bind i 0 fun a => settled_register_bind i 1 fun b => ?_
  rcases read_refuses_or a with ⟨e, ha⟩ | ⟨ha, hwa⟩
  · exact .inl ⟨e, ha.bind _⟩
  rcases read_refuses_or b with ⟨e, hb⟩ | ⟨hb, hwb⟩
  · exact .inl ⟨e, ha.bind_refuses fun _ => hb.bind _⟩
  · exact .inr (ha.completes.bind fun _ => hb.completes.bind fun _ =>
      (hwa _).bind fun _ => hwb _)

theorem vector_settled (i : Instruction) (op : BitVec 128 → BitVec 128 → BitVec 128) :
    (vector i op).Settled := by
  unfold vector
  rcases lane_cases i 0 with ⟨e, hd⟩ | ⟨dst, hd⟩
  · exact .inl ⟨e, hd.bind _⟩
  rcases lane_cases i 1 with ⟨e, hs⟩ | ⟨src, hs⟩
  · rw [hd]
    exact .inl ⟨e, Reads.bind_refuses (fun _ => ⟨dst, rfl⟩) fun _ => hs.bind _⟩
  · rw [hd, hs]
    exact .inr (completes_modify _)

end Emulation

namespace Instruction

open Emulation

theorem compute_settled (i : Instruction) : i.compute.Settled := by
  unfold compute
  split
  · exact .inr (completes_pure ())
  all_goals first
    | exact move_settled i
    | exact binary_settled i _ _
    | exact unary_settled i _ _
    | exact loadAddress_settled i
    | exact exchange_settled i
    | exact vector_settled i _
    | exact .inl ⟨_, refuses_throw _⟩

/-- The registers have no say in what an instruction leads to, and a refused instruction leaves
them alone. -/
theorem step_settled (i : Instruction) :
    (∃ e, i.step.Refuses e) ∨ ∃ s, ∀ file, ∃ file', i.step.run file = .ok s file' := by
  unfold step
  cases i.flow with
  | next =>
    rcases i.compute_settled with ⟨e, h⟩ | h
    · exact .inl ⟨e, h.bind _⟩
    · refine .inr ⟨.proceed, fun file => ?_⟩
      obtain ⟨_, file', hc⟩ := h file
      exact ⟨file', by simp only [EStateM.run_bind, hc, EStateM.run_pure]⟩
  | interrupt | transaction | exception => exact .inl ⟨_, refuses_throw _⟩
  | _ => exact .inr ⟨_, fun file => ⟨file, rfl⟩⟩

/-- Control goes on after `i`, whatever the registers hold. -/
def Proceeds (i : Instruction) : Prop :=
  ∀ file, ∃ file', i.step.run file = .ok .proceed file'

/-- An instruction that hands control on leaves the block, and the registers alone. -/
theorem step_leave {i : Instruction} {e : BlockExit} {file file' : RegisterFile}
    (h : i.step.run file = .ok (.leave e) file') : file' = file ∧ e ≠ .fallThrough := by
  unfold step at h
  cases hf : i.flow <;> rw [hf] at h
  case next =>
    simp only [EStateM.run_bind] at h
    split at h
    · cases h
    · cases h
  all_goals cases h
  all_goals exact ⟨rfl, nofun⟩

/-- What one instruction can do, from every register file alike: be refused, leave the block, or
go on. -/
theorem step_cases (i : Instruction) :
    (∃ e, i.step.Refuses e)
      ∨ (∃ e, e ≠ .fallThrough ∧ ∀ file, i.step.run file = .ok (.leave e) file)
      ∨ i.Proceeds := by
  rcases i.step_settled with ⟨e, h⟩ | ⟨s, h⟩
  · exact .inl ⟨e, h⟩
  cases s with
  | proceed => exact .inr (.inr h)
  | leave e =>
    refine .inr (.inl ⟨e, ?_, fun file => ?_⟩)
    · obtain ⟨_, hf⟩ := h .zero
      exact (step_leave hf).2
    · obtain ⟨file', hf⟩ := h file
      rw [hf, (step_leave hf).1]

end Instruction

end Rerun.X64
