import Rerun.Execution
import Rerun.Proofs.Actions
import Rerun.Proofs.Settled

/-!
# Runs of blocks

A run of a block is a run of its first entry and, if that lets it go on, a run of the others
(`run_cons_cases`). So a run of two blocks in a row is a run of the first and, if that comes to its
end, of the second (`Passes.run_append`, `run_append_of_stops`).

A run that makes no calls, or calls that keep to the registers, keeps to the registers
(`run_onRegisters`). If a thread comes to the end of a block, each instruction of the block lets
control go on, whatever the registers hold (`Passes.proceeds`, `passes_of_proceeds`).
-/

namespace Rerun

/-- The entry is an instruction. -/
def Entry.IsMachine (e : Entry) : Prop := ∃ i, e.content = .machine i

theorem Entry.isSome_machine?_iff {e : Entry} : e.machine?.isSome ↔ e.IsMachine := by
  unfold machine? IsMachine
  cases e.content <;> simp

instance (e : Entry) : Decidable e.IsMachine := decidable_of_iff _ Entry.isSome_machine?_iff

theorem Entry.machine_of_isTerminator {e : Entry} (h : e.isTerminator) :
    ∃ i, e.content = .machine i ∧ i.isTerminator := by
  unfold isTerminator isTransfer isReturn holds machine? at h
  cases hc : e.content with
  | machine i =>
    rw [hc] at h
    exact ⟨i, rfl, h⟩
  | label =>
    rw [hc] at h
    cases h
  | call c =>
    rw [hc] at h
    cases h

/-- A terminator never lets control go on. -/
theorem X64.Instruction.not_proceeds_of_isTerminator {i : X64.Instruction} (hi : i.isTerminator) :
    ¬i.Proceeds := by
  intro h
  obtain ⟨file, hf⟩ := h .zero
  unfold step at hf
  unfold isTerminator isTransfer isReturn at hi
  cases hflow : i.flow <;> rw [hflow] at hf hi
  case next => simp at hi
  all_goals cases hf

namespace Block

/-- No entry of the block is a call. -/
def CallFree (b : Block) : Prop := ∀ e ∈ b, e.call?.isNone

instance (b : Block) : Decidable b.CallFree :=
  inferInstanceAs (Decidable (∀ e ∈ b, e.call?.isNone))

variable {b : Block}

theorem callFree_cons {e : Entry} : CallFree (e :: b) ↔ e.call?.isNone ∧ b.CallFree :=
  List.forall_mem_cons

theorem callFree_of_machine (h : ∀ e ∈ b, e.IsMachine) : b.CallFree := by
  intro e he
  obtain ⟨i, hi⟩ := h e he
  rw [Entry.call?, hi]
  rfl

end Block

namespace Thread

open X64 Rerun.Action

variable {α β : Type} {t t' u : Thread} {a b : Block}

theorem setRegisters_registers (t : Thread) : t.setRegisters t.registers = t := rfl

/-! ## One entry -/

theorem step_ends_ok {i : Instruction} {s : Step} {file : RegisterFile}
    (h : i.step.run t.registers = .ok s file) :
    (step i).Ends t (.ok (.ok s)) (t.setRegisters file) := by
  constructor <;> simp only [step, modifyGet, MonadStateOf.modifyGet, Action.modifyGet, h]

theorem step_ends_error {i : Instruction} {e : EmulationError}
    (h : i.step.Refuses e) : (step i).Ends t (.ok (.error e)) t := by
  constructor
  · simp only [step, modifyGet, MonadStateOf.modifyGet, Action.modifyGet, h _]
  · simp only [step, modifyGet, MonadStateOf.modifyGet, Action.modifyGet, h _]
    rfl

theorem run_label {e : Entry} (h : e.content = .label) (rest : Block) :
    run (e :: rest) = run rest := by
  simp only [run, h]

theorem run_call {e : Entry} {c : Call} (h : e.content = .call c) (rest : Block) :
    run (e :: rest) = c.invoke >>= fun _ => run rest := by
  simp only [run, h]

theorem run_machine {e : Entry} {i : Instruction} (h : e.content = .machine i) (rest : Block) :
    run (e :: rest) = step i >>= fun o => match o with
      | .error e => pure (.refused e)
      | .ok (.leave e) => pure (.exit e)
      | .ok .proceed => run rest := by
  obtain ⟨id, content, isApp, note⟩ := e
  obtain rfl : content = .machine i := h
  rfl

/-- An instruction ends every run that comes to it in the same way, or no run. -/
theorem run_machine_cases {e : Entry} {i : Instruction} (h : e.content = .machine i) :
    (∃ r, r ≠ .exit .fallThrough ∧ ∀ t rest, (run (e :: rest)).Ends t (.ok r) t)
      ∨ i.Proceeds ∧ ∀ t, ∃ file, ∀ {rest r u},
        (run rest).Ends (t.setRegisters file) r u → (run (e :: rest)).Ends t r u := by
  rcases i.step_cases with ⟨x, hs⟩ | ⟨x, hx, hs⟩ | hs
  · refine .inl ⟨.refused x, nofun, fun t rest => ?_⟩
    rw [run_machine h]
    exact (step_ends_error hs).bind (ends_pure _ _)
  · refine .inl ⟨.exit x, by simpa using hx, fun t rest => ?_⟩
    rw [run_machine h]
    exact (step_ends_ok (hs _)).bind (ends_pure _ _)
  · refine .inr ⟨hs, fun t => ?_⟩
    obtain ⟨file, hf⟩ := hs t.registers
    refine ⟨file, fun hrest => ?_⟩
    rw [run_machine h]
    exact (step_ends_ok hf).bind hrest

/-- A terminator has a way to end of its own and leaves everything as it is. -/
theorem run_cons_of_isTerminator {x : Entry} (hx : x.isTerminator) :
    ∃ r, r ≠ .exit .fallThrough ∧ ∀ t rest, (run (x :: rest)).Ends t (.ok r) t := by
  obtain ⟨i, hi, hit⟩ := Entry.machine_of_isTerminator hx
  rcases run_machine_cases hi with h | ⟨hp, -⟩
  · exact h
  · exact absurd hp (X64.Instruction.not_proceeds_of_isTerminator hit)

/-- An entry either sends a run on with the others, or ends it before its time. -/
theorem run_cons_cases (e : Entry) (t : Thread) :
    (∃ t', ∀ {rest r u}, (run rest).Ends t' r u → (run (e :: rest)).Ends t r u)
      ∨ ∃ r t', r ≠ .ok (.exit .fallThrough) ∧ ∀ rest, (run (e :: rest)).Ends t r t' := by
  cases hc : e.content with
  | label => exact .inl ⟨t, fun h => by rwa [run_label hc]⟩
  | call c =>
    rcases hi : (c.invoke t).result with f | ⟨⟩
    · refine .inr ⟨.error f, (c.invoke t).state, nofun, fun rest => ?_⟩
      rw [run_call hc]
      exact Ends.bind_error ⟨hi, rfl⟩
    · refine .inl ⟨(c.invoke t).state, fun h => ?_⟩
      rw [run_call hc]
      exact Ends.bind ⟨hi, rfl⟩ h
  | machine i =>
    rcases run_machine_cases hc with ⟨r, hr, h⟩ | ⟨-, h⟩
    · exact .inr ⟨.ok r, t, by simpa using hr, h t⟩
    · obtain ⟨file, hf⟩ := h t
      exact .inl ⟨t.setRegisters file, hf⟩

theorem execute_apply (ht : t.arch = .x64) : execute b t = run b t := by
  have hget : (get : Action Thread Thread) t = ⟨.ok t, t, []⟩ := rfl
  refine bind_quiet_eq hget ?_
  rw [if_pos ht]

theorem execute_ends_iff {r : Except Fault Ending} (ht : t.arch = .x64) :
    (execute b).Ends t r u ↔ (run b).Ends t r u := by
  rw [Ends, Ends, execute_apply ht]

/-! ## Runs in a row -/

/-- A run of `b` from `t` comes to the end of the block and leaves `t'`. -/
def Passes (b : Block) (t t' : Thread) : Prop := (run b).Ends t (.ok (.exit .fallThrough)) t'

theorem passes_nil (t : Thread) : Passes [] t t := ends_pure _ _

theorem Passes.of_cons {e : Entry} (h : Passes (e :: b) t u) :
    ∃ t', (∀ {rest r v}, (run rest).Ends t' r v → (run (e :: rest)).Ends t r v)
      ∧ Passes b t' u := by
  rcases run_cons_cases e t with ⟨t', ht⟩ | ⟨r, t', hr, ht⟩
  · refine ⟨t', ht, ?_⟩
    obtain ⟨hr, hu⟩ := Ends.unique h (ht ⟨rfl, rfl⟩)
    exact ⟨hr.symm, hu.symm⟩
  · exact absurd (Ends.unique h (ht b)).1.symm hr

theorem Passes.run_append {r : Except Fault Ending} (h : Passes a t t')
    (hb : (run b).Ends t' r u) : (run (a ++ b)).Ends t r u := by
  induction a generalizing t with
  | nil =>
    obtain ⟨-, rfl⟩ := Ends.unique h (passes_nil t)
    exact hb
  | cons e rest ih =>
    obtain ⟨v, hv, hrest⟩ := h.of_cons
    exact hv (ih hrest)

theorem run_append_of_stops {r : Except Fault Ending} (h : (run a).Ends t r t')
    (hr : r ≠ .ok (.exit .fallThrough)) (b : Block) : (run (a ++ b)).Ends t r t' := by
  induction a generalizing t with
  | nil => exact absurd (Ends.unique h (passes_nil t)).1 hr
  | cons e rest ih =>
    rcases run_cons_cases e t with ⟨v, hv⟩ | ⟨q, v, -, hv⟩
    · obtain ⟨hq, hu⟩ := Ends.unique h (hv ⟨rfl, rfl⟩)
      exact hv (ih ⟨hq.symm, hu.symm⟩)
    · obtain ⟨rfl, rfl⟩ := Ends.unique h (hv rest)
      exact hv _

/-- Runs look at what the entries are and not at their identities. -/
theorem run_congr (h : a.map (·.content) = b.map (·.content)) : run a = run b := by
  induction a generalizing b with
  | nil =>
    cases b with
    | nil => rfl
    | cons _ _ => cases h
  | cons e rest ih =>
    cases b with
    | nil => cases h
    | cons e' rest' =>
      simp only [List.map_cons, List.cons.injEq] at h
      simp only [run, h.1, ih h.2]

/-! ## Runs that keep to the registers -/

/-- From threads with the same registers `x` ends alike, and it changes nothing but these. -/
def OnRegisters (x : Action Thread α) : Prop :=
  ∀ t u : Thread, u.registers = t.registers →
    x.Ends u (x t).result (u.setRegisters (x t).state.registers)

theorem OnRegisters.of_ends {x : Action Thread α} {r : RegisterFile → Except Fault α}
    {g : RegisterFile → RegisterFile}
    (h : ∀ t, x.Ends t (r t.registers) (t.setRegisters (g t.registers))) : OnRegisters x := by
  intro t u hu
  obtain ⟨hr, ht⟩ := h t
  rw [hr, ht, ← hu]
  exact h u

theorem onRegisters_pure (a : α) : OnRegisters (pure a) :=
  .of_ends (r := fun _ => .ok a) (g := fun file => file) fun t => ends_pure a t

theorem onRegisters_fail (e : Fault) : OnRegisters (fail e : Action Thread α) :=
  .of_ends (r := fun _ => .error e) (g := fun file => file) fun t => ends_fail e t

theorem onRegisters_iff {x : Action Thread α} :
    OnRegisters x ↔ ∀ u : Thread, x.Commutes fun t => u.setRegisters t.registers := by
  constructor
  · intro h u t
    exact h t (u.setRegisters t.registers) rfl
  · intro h t u hu
    have hut : x.Ends (u.setRegisters t.registers) (x t).result
        (u.setRegisters (x t).state.registers) := h u t
    rwa [← hu, setRegisters_registers] at hut

theorem OnRegisters.bind {x : Action Thread α} {f : α → Action Thread β} (hx : OnRegisters x)
    (hf : ∀ a, OnRegisters (f a)) : OnRegisters (x >>= f) :=
  onRegisters_iff.2 fun u => (onRegisters_iff.1 hx u).bind fun a => onRegisters_iff.1 (hf a) u

theorem OnRegisters.ends {x : Action Thread α} {r : Except Fault α} (hx : OnRegisters x)
    (h : x.Ends t r t') (hu : u.registers = t.registers) :
    x.Ends u r (u.setRegisters t'.registers) := by
  obtain ⟨rfl, rfl⟩ := h
  exact hx t u hu

theorem onRegisters_step (i : Instruction) : OnRegisters (step i) := by
  intro t u h
  rcases hs : i.step.run t.registers with ⟨s, file⟩ | ⟨e, file⟩
  · obtain ⟨hr, ht⟩ := step_ends_ok hs
    rw [hr, ht]
    exact step_ends_ok (h ▸ hs)
  · rcases i.step_cases with ⟨x, hx⟩ | ⟨x, -, hx⟩ | hx
    · obtain ⟨hr, ht⟩ := step_ends_error (t := t) hx
      rw [hr, ht, ← h, setRegisters_registers]
      exact step_ends_error hx
    · rw [hx] at hs
      cases hs
    · obtain ⟨_, hx⟩ := hx t.registers
      rw [hx] at hs
      cases hs

/-- A call that computes new registers from the old ones, or fails. -/
theorem onRegisters_update (f : RegisterFile → Except Fault RegisterFile) :
    OnRegisters (do
      let t ← get
      let file ← ofExcept (f t.registers)
      set (t.setRegisters file)) := by
  refine .of_ends (r := fun file => (f file).map fun _ => ⟨⟩)
    (g := fun file => (f file).toOption.getD file) fun t => (ends_get t).bind ?_
  cases f t.registers with
  | error e => exact Ends.bind_error (ends_fail e t)
  | ok file => exact (ends_pure file t).bind (ends_set _ _)

theorem onRegisters_poke (args : List Int) : OnRegisters (Call.poke args).invoke := by
  match args with
  | n :: v :: _ =>
    exact onRegisters_update fun file =>
      file.setWordAt (.gpr (BitVec.ofInt 64 n).toNat) (BitVec.ofInt 64 v)
  | [] => exact onRegisters_fail _
  | [_] => exact onRegisters_fail _

/-- Whatever the block calls keeps to the registers. -/
def CallsOnRegisters (b : Block) : Prop :=
  ∀ e ∈ b, ∀ c, e.content = .call c → OnRegisters c.invoke

theorem callsOnRegisters_nil : CallsOnRegisters [] := fun _ he => absurd he List.not_mem_nil

theorem callsOnRegisters_cons {e : Entry} : CallsOnRegisters (e :: b)
    ↔ (∀ c, e.content = .call c → OnRegisters c.invoke) ∧ CallsOnRegisters b := by
  unfold CallsOnRegisters
  rw [List.forall_mem_cons]

theorem callsOnRegisters_of_callFree (h : b.CallFree) : CallsOnRegisters b := by
  intro e he c hc
  have hnone := h e he
  rw [Entry.call?, hc] at hnone
  cases hnone

theorem CallsOnRegisters.subset (h : CallsOnRegisters b) (hs : a ⊆ b) : CallsOnRegisters a :=
  fun e he => h e (hs he)

theorem run_onRegisters (h : CallsOnRegisters b) : OnRegisters (run b) := by
  induction b with
  | nil => exact onRegisters_pure _
  | cons e rest ih =>
    obtain ⟨hcall, hrest⟩ := callsOnRegisters_cons.1 h
    cases hc : e.content with
    | label =>
      rw [run_label hc]
      exact ih hrest
    | call c =>
      rw [run_call hc]
      exact (hcall c hc).bind fun _ => ih hrest
    | machine i =>
      rw [run_machine hc]
      refine (onRegisters_step i).bind fun o => ?_
      rcases o with e | s
      · exact onRegisters_pure _
      · cases s with
        | leave x => exact onRegisters_pure _
        | proceed => exact ih hrest

/-! ## Instructions that let control go on -/

theorem Passes.proceeds {e : Entry} {i : Instruction} (h : Passes b t u) (he : e ∈ b)
    (hi : e.content = .machine i) : i.Proceeds := by
  induction b generalizing t with
  | nil => cases he
  | cons d rest ih =>
    rcases List.mem_cons.1 he with rfl | he
    · rcases run_machine_cases hi with ⟨r, hr, hends⟩ | ⟨hp, -⟩
      · exact absurd (Except.ok.inj (Ends.unique (hends t rest) h).1) hr
      · exact hp
    · obtain ⟨v, -, hrest⟩ := h.of_cons
      exact ih hrest he

theorem passes_of_proceeds (h : ∀ e ∈ b, ∃ i, e.content = .machine i ∧ i.Proceeds) (t : Thread) :
    ∃ file, Passes b t (t.setRegisters file) := by
  induction b generalizing t with
  | nil => exact ⟨t.registers, passes_nil t⟩
  | cons e rest ih =>
    obtain ⟨i, hi, hp⟩ := h e List.mem_cons_self
    obtain ⟨file, hf⟩ := hp t.registers
    obtain ⟨file', hrest⟩ := ih (fun e he => h e (List.mem_cons_of_mem _ he)) (t.setRegisters file)
    refine ⟨file', ?_⟩
    rw [Passes, run_machine hi]
    exact (step_ends_ok hf).bind hrest

/-- Runs without calls end without a fault and change nothing but the registers, and all of them end
alike. -/
theorem exists_ending_of_callFree (h : b.CallFree) :
    ∃ ending, ∀ t, ∃ file, (run b).Ends t (.ok ending) (t.setRegisters file) := by
  induction b with
  | nil => exact ⟨.exit .fallThrough, fun t => ⟨t.registers, ends_pure _ _⟩⟩
  | cons e rest ih =>
    obtain ⟨he, hrest⟩ := Block.callFree_cons.1 h
    cases hc : e.content with
    | label =>
      rw [run_label hc]
      exact ih hrest
    | call c =>
      rw [Entry.call?, hc] at he
      cases he
    | machine i =>
      rcases run_machine_cases hc with ⟨r, -, hends⟩ | ⟨-, hon⟩
      · exact ⟨r, fun t => ⟨t.registers, hends t rest⟩⟩
      · obtain ⟨ending, hall⟩ := ih hrest
        refine ⟨ending, fun t => ?_⟩
        obtain ⟨file, hf⟩ := hon t
        obtain ⟨file', hends⟩ := hall (t.setRegisters file)
        exact ⟨file', hf hends⟩

theorem run_ends_of_callFree (h : b.CallFree) (t : Thread) :
    ∃ ending file, (run b).Ends t (.ok ending) (t.setRegisters file) := by
  obtain ⟨ending, hall⟩ := exists_ending_of_callFree h
  exact ⟨ending, hall t⟩

theorem run_ends_of_machine (h : ∀ e ∈ b, e.IsMachine) (t : Thread) :
    ∃ ending file, (run b).Ends t (.ok ending) (t.setRegisters file) :=
  run_ends_of_callFree (Block.callFree_of_machine h) t

end Thread

end Rerun
