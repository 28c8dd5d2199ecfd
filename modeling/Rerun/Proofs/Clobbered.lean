import Rerun.Clobber
import Rerun.Proofs.Hidden
import Rerun.Proofs.Transparent

/-!
# The faulty tool is found

The instruction of the tool changes the one register that it is made for (`step_ruined`,
`value_ruined_of_ne`), and it stands last in the instrumented run. So the two runs of a block that
goes through the tool and then through a checker differ on that register at most, and the block ends
with a fault, which names the register, exactly if the instruction makes a difference to what the
block leaves in it (`detected_iff`).
-/

namespace Rerun

open Rerun.Action Thread X64

namespace Slot

variable {slot slot' : Slot} {file : RegisterFile} {i : Instruction}

/-- The register file after the tool has overwritten a slot. -/
def ruined (file : RegisterFile) : Slot → RegisterFile
  | gpr i => file.setWord (.gpr i) Clobber.pattern
  | flags => file.updateFlags { parity := true, zero := true } Flags.arithmetic
  | extra k => file.setWord (.extra k) (file.full Gpr.accumulator)
  | sp => file.setWord .sp Clobber.pattern
  | simd i => file.setSimd i ((file.simd.get i).extractLsb' 128 384 ++ BitVec.allOnes 128)

/-- The slot holds something else than the tool writes into it. -/
def Ruinable (file : RegisterFile) : Slot → Prop
  | gpr i => file.gpr.get i ≠ Clobber.pattern
  | flags => file.flags &&& Flags.arithmetic ≠ Flags.zeroBit ||| Flags.parityBit
  | extra k => file.extra.get k ≠ file.full Gpr.accumulator
  | sp => file.sp ≠ Clobber.pattern
  | simd i => (file.simd.get i).setWidth 128 ≠ BitVec.allOnes 128

/-! ## The instructions -/

theorem subtraction_self {w : Nat} (a : BitVec w) :
    (subtraction a a).2 = { parity := true, zero := true } := by
  simp [subtraction, Flags.ofResult, Flags.evenParity]

theorem equalDoubles_self (a : BitVec 128) : equalDoubles a a = BitVec.allOnes 128 := by
  simp only [equalDoubles, equalDoubles.quarter, if_true]
  rfl

/-- The instruction of the tool overwrites the slot. -/
theorem step_ruined (hslot : ¬slot.hidden) (hi : Clobber.instruction? slot = some i)
    (file : RegisterFile) : i.step.run file = .ok .proceed (slot.ruined file) := by
  cases slot with
  | gpr n =>
    rw [Clobber.instruction?] at hi
    split at hi
    · next hn =>
      -- slot 4 is hidden, because its number stands for the stack pointer
      have hsp : (⟨n, hn⟩ : Fin 16) ≠ Gpr.stackPointer := by
        intro heq
        have hval : n.val = 4 := congrArg Fin.val heq
        exact hslot (hidden_iff_gpr.2 ⟨n, rfl, .inl (Fin.ext hval)⟩)
      obtain rfl := Option.some.inj hi
      show EStateM.Result.ok Step.proceed (file.setFull ⟨n, hn⟩ Clobber.pattern) = _
      rw [RegisterFile.setFull, if_neg hsp]
      rfl
    · cases hi
  | flags =>
    obtain rfl := Option.some.inj hi
    show EStateM.Result.ok Step.proceed (file.updateFlags (subtraction _ _).2 Flags.arithmetic) = _
    rw [subtraction_self]
    rfl
  | extra k =>
    obtain rfl := Option.some.inj hi
    have hrax : file.readGpr (.full Gpr.accumulator) = file.full Gpr.accumulator := by
      show (file.full Gpr.accumulator >>> 0) &&& Width.qword.mask = _
      rw [BitVec.ushiftRight_zero]
      exact BitVec.and_allOnes
    show EStateM.Result.ok Step.proceed (file.setWord (.extra k) (file.readGpr _)) = _
    rw [hrax]
    rfl
  | sp =>
    obtain rfl := Option.some.inj hi
    rfl
  | simd n =>
    rw [Clobber.instruction?] at hi
    split at hi
    · obtain rfl := Option.some.inj hi
      show EStateM.Result.ok Step.proceed (file.setSimd n (_ ++ equalDoubles _ _)) = _
      rw [equalDoubles_self]
      rfl
    · cases hi

/-! ## What changes -/

theorem value_ruined_of_ne (h : slot' ≠ slot) (file : RegisterFile) (width : Nat) :
    (slot.ruined file).value slot' width = file.value slot' width := by
  cases slot with
  | flags => exact file.value_updateFlags _ _ h width
  | simd i => exact RegisterFile.value_setSimd_of_ne h file _ width
  | _ => exact RegisterFile.value_setWord_of_ne h file _ width

/-- Bits are replaced where the mask has ones. -/
theorem replace_eq_self_iff {x m c : Word} (hc : c &&& m = c) :
    (x &&& ~~~m) ||| c = x ↔ x &&& m = c := by
  have hbits : ∀ i, i < 64 → (c.getLsbD i && m.getLsbD i) = c.getLsbD i := fun i _ => by
    rw [← BitVec.getLsbD_and, hc]
  constructor
  · intro h
    refine BitVec.eq_of_getLsbD_eq fun i hi => ?_
    have hbit := congrArg (·.getLsbD i) h
    have hmask := hbits i hi
    simp only [BitVec.getLsbD_or, BitVec.getLsbD_and, BitVec.getLsbD_not, hi, decide_true,
      Bool.true_and] at hbit ⊢
    revert hbit hmask
    cases x.getLsbD i <;> cases m.getLsbD i <;> cases c.getLsbD i <;> decide
  · rintro rfl
    refine BitVec.eq_of_getLsbD_eq fun i hi => ?_
    simp only [BitVec.getLsbD_or, BitVec.getLsbD_and, BitVec.getLsbD_not, hi, decide_true,
      Bool.true_and]
    cases x.getLsbD i <;> cases m.getLsbD i <;> rfl

theorem append_allOnes_eq_self_iff (v : Simd) :
    v.extractLsb' 128 384 ++ BitVec.allOnes 128 = v ↔ v.setWidth 128 = BitVec.allOnes 128 := by
  constructor
  · intro h
    rw [← h, BitVec.setWidth_append, dif_pos (Nat.le_refl 128), BitVec.setWidth_eq]
  · intro h
    rw [← h]
    refine BitVec.eq_of_getLsbD_eq fun i hi => ?_
    rw [BitVec.getLsbD_append]
    split
    · next hlow => simp [hlow]
    · next hlow =>
      have hhigh : i - 128 < 384 := by omega
      have hadd : 128 + (i - 128) = i := by omega
      rw [BitVec.getLsbD_extractLsb', hadd, decide_eq_true hhigh, Bool.true_and]

theorem value_ruined_ne_iff (slot : Slot) (file : RegisterFile) :
    (slot.ruined file).value slot 64 ≠ file.value slot 64 ↔ slot.Ruinable file := by
  cases slot with
  | gpr i =>
    have hvalue : (ruined file (gpr i)).value (gpr i) 64 = .word Clobber.pattern := by
      rw [ruined, RegisterFile.value_setWord_self]
      simp
    rw [hvalue, RegisterFile.value, Ne, Value.word.injEq]
    exact not_congr eq_comm
  | flags =>
    have hword : Flags.word { parity := true, zero := true } &&& Flags.arithmetic
        = Flags.zeroBit ||| Flags.parityBit := by decide
    refine not_congr ?_
    show Value.word ((file.flags &&& ~~~Flags.arithmetic) ||| (_ &&& _)) = .word file.flags ↔ _
    rw [hword, Value.word.injEq, replace_eq_self_iff (by decide)]
  | extra k =>
    have hvalue : (ruined file (extra k)).value (extra k) 64
        = .word (file.full Gpr.accumulator) := by
      rw [ruined, RegisterFile.value_setWord_self]
      simp
    rw [hvalue, RegisterFile.value, Ne, Value.word.injEq]
    exact not_congr eq_comm
  | sp => simp [ruined, Ruinable, RegisterFile.value, RegisterFile.setWord, eq_comm]
  | simd i =>
    have hvalue : (ruined file (simd i)).value (simd i) 64
        = .vector (Bytes.low ((file.simd.get i).extractLsb' 128 384 ++ BitVec.allOnes 128) 64) := by
      simp [ruined, RegisterFile.value, RegisterFile.setSimd]
    refine not_congr ?_
    rw [hvalue, RegisterFile.value, Value.vector.injEq, Bytes.low_eq_low_iff]
    simp only [Nat.reduceMul, BitVec.setWidth_eq]
    exact append_allOnes_eq_self_iff _

end Slot

namespace Arch

open Slot

variable {f : Field} {a b : RegisterFile}

/-- Register files that differ in one slot at most. -/
theorem compare_of_forall_ne (hf : f ∈ Arch.x64.schema)
    (h : ∀ slot, slot ≠ f.slot → a.value slot 64 = b.value slot 64) :
    Arch.x64.compare a b = if f.agrees .x64 a b then none else some (f.mismatch .x64 a b) := by
  by_cases hagrees : f.agrees .x64 a b
  · rw [if_pos hagrees, compare_eq_none_iff]
    intro g _
    rw [Field.agrees_iff] at hagrees ⊢
    by_cases hg : g.slot = f.slot
    · rw [hg]
      exact hagrees
    · exact h g.slot hg
  · rw [if_neg hagrees, compare_eq_some_iff]
    obtain ⟨pre, post, hs⟩ := List.append_of_mem hf
    have hnodup := Arch.x64.nodup_slots
    rw [hs, List.map_append, List.nodup_append] at hnodup
    -- the fields before `f` are about other slots, so `f` is the first one to disagree
    refine ⟨pre, f, post, hs, fun g hg => ?_, by simpa using hagrees, rfl⟩
    refine Field.agrees_iff.2 (h g.slot ?_)
    exact hnodup.2.2 g.slot (List.mem_map_of_mem hg) f.slot (by simp)

/-- What the tool leaves, compared with what it has found. -/
theorem compare_ruined (hf : f ∈ Arch.x64.schema) (file : RegisterFile) :
    (f.slot.Ruinable file → Arch.x64.compare (f.slot.ruined file) file
        = some (f.mismatch .x64 (f.slot.ruined file) file))
      ∧ (¬f.slot.Ruinable file → Arch.x64.compare (f.slot.ruined file) file = none) := by
  have hcompare := compare_of_forall_ne hf
    (fun slot hslot => value_ruined_of_ne hslot file 64)
  have hagrees : f.agrees .x64 (f.slot.ruined file) file ↔ ¬f.slot.Ruinable file := by
    rw [Field.agrees_iff, ← value_ruined_ne_iff, Classical.not_not]
    rfl
  rw [hcompare]
  exact ⟨fun h => if_neg fun ha => hagrees.1 ha h, fun h => if_pos (hagrees.2 h)⟩

end Arch

namespace Clobber

variable {tool : Clobber} {name : String} {a : Block} {d : Draft} {last : Entry} {n m : EntryId}
  {f : Field} {c : Checker} {t u v : Thread} {e : BlockExit} {pair : Snapshots}

def registration (tool : Clobber) : Registration := ⟨defaultPriority, tool.client⟩

def entry (tool : Clobber) (n : EntryId) : Entry := ⟨n, .machine tool.instruction, false, none⟩

/-- A draft, whose block ends in `last`, as the tool leaves it. -/
def tampered (tool : Clobber) (d : Draft) (last : Entry) : Draft :=
  ⟨d.block.body ++ [tool.entry d.nextId, last], d.nextId + 1⟩

/-- The instruction goes right in front of the last one of the program. -/
theorem built_append (tool : Clobber) (hn : ((a ++ [last]).map (·.id)).Nodup) (hlast : last.isApp)
    (t : Thread) (forTrace rebuilding : Bool) :
    (tool.client.built t forTrace rebuilding).Ends ⟨a ++ [last], n⟩ (.ok ())
      ⟨a ++ [tool.entry n, last], n + 1⟩ := by
  have hfound : Block.lastApp? (a ++ [last]) = some last := by simp [Block.lastApp?, hlast]
  have hne : ∀ y ∈ a, y.id ≠ last.id := fun y hy =>
    Block.ne_of_nodup hn y (List.mem_append_left _ hy)
  have htool : (Draft.tool tool.instruction).Ends ⟨a ++ [last], n⟩ (.ok (tool.entry n))
      ⟨a ++ [last], n + 1⟩ := ⟨rfl, rfl⟩
  have hinserted := Draft.insertBefore_apply (d := ⟨a ++ [last], n + 1⟩)
    (Block.insertBefore_append hne (tool.entry n) [])
  have happly : tool.apply.Ends ⟨a ++ [last], n⟩ (.ok true)
      ⟨a ++ [tool.entry n, last], n + 1⟩ := by
    rw [apply]
    refine (ends_get _).bind ?_
    simp only [hfound]
    refine htool.bind ?_
    exact Ends.bind ⟨congrArg Outcome.result hinserted, congrArg Outcome.state hinserted⟩
      (ends_pure _ _)
  exact happly.bind (ends_say _ _ _ _)

theorem ofField?_eq_some (h : ofField? name = some tool) :
    ∃ f, Arch.x64.field? name = some f ∧ instruction? f.slot = some tool.instruction := by
  unfold ofField? at h
  obtain ⟨f, hf, h⟩ := Option.bind_eq_some_iff.1 h
  obtain ⟨i, hi, h⟩ := Option.bind_eq_some_iff.1 h
  obtain rfl := Option.some.inj h
  exact ⟨f, hf, hi⟩

section Tampered

variable (hd : d.Numbered) (hterm : d.block.terminator? = some last)

include hd hterm

theorem app_tampered (tool : Clobber) : (tool.tampered d last).block.app = d.block.app := by
  have hlast : last.isApp := (Block.terminator?_eq_some_iff.1 hterm).1
  have htool : Block.app [tool.entry d.nextId, last] = [last] := Block.app_cons_of_isApp hlast []
  rw [tampered, Block.app_append, htool, Block.app_body hd.nodup, hterm]
  rfl

theorem eligibility_tampered (tool : Clobber) (helig : d.block.eligibility = .eligible) :
    (tool.tampered d last).block.eligibility = .eligible := by
  rw [Block.eligibility_eq_eligible_iff, app_tampered hd hterm]
  exact Block.eligibility_eq_eligible_iff.1 helig

variable (hb : d.block.AppOnly)

include hb

theorem block_eq : d.block = d.block.body ++ [last] := by
  have hsplit := hb.split hd.nodup
  rwa [hterm] at hsplit

theorem numbered_tampered (tool : Clobber) : (tool.tampered d last).Numbered := by
  have hnumbered : Draft.Numbered ⟨d.block.body ++ [last], d.nextId⟩ :=
    block_eq hd hterm hb ▸ hd
  exact hnumbered.insert rfl

theorem built_ends (tool : Clobber) (t : Thread) (forTrace rebuilding : Bool) :
    (tool.client.built t forTrace rebuilding).Ends d (.ok ()) (tool.tampered d last) := by
  have hd' : d = ⟨d.block.body ++ [last], d.nextId⟩ := by rw [← block_eq hd hterm hb]
  have hnodup : ((d.block.body ++ [last]).map (·.id)).Nodup := block_eq hd hterm hb ▸ hd.nodup
  have hbuilt := built_append tool (n := d.nextId) hnodup (Block.terminator?_eq_some_iff.1 hterm).1
    t forTrace rebuilding
  rwa [← hd'] at hbuilt

theorem body_tampered (tool : Clobber) :
    (tool.tampered d last).block.terminator? = some last
      ∧ (tool.tampered d last).block.body = d.block.body ++ [tool.entry d.nextId] := by
  obtain ⟨hlast, hlastTerm, -⟩ := Block.terminator?_eq_some_iff.1 hterm
  have hblock : (tool.tampered d last).block = (d.block.body ++ [tool.entry d.nextId]) ++ [last] :=
    List.append_cons _ _ _
  have hn := (numbered_tampered hd hterm hb tool).nodup
  have hsome : (tool.tampered d last).block.terminator? = some last :=
    Block.terminator?_eq_some_iff.2 ⟨hlast, hlastTerm, _, [], hblock, rfl⟩
  refine ⟨hsome, ?_⟩
  rw [hblock] at hsome hn ⊢
  exact (Block.body_append hn hsome).trans (List.append_nil _)

theorem isMachine_tampered (tool : Clobber) :
    ∀ x ∈ (tool.tampered d last).block, x.IsMachine := by
  have hlast : last ∈ d.block := by
    rw [block_eq hd hterm hb]
    simp
  intro x hx
  simp only [tampered, List.mem_append, List.mem_cons, List.not_mem_nil, or_false] at hx
  rcases hx with hx | rfl | rfl
  · exact hb.body.isMachine x hx
  · exact ⟨tool.instruction, rfl⟩
  · exact hb.isMachine x hlast

/-- The two runs differ in what the tool ruins, and in nothing else. -/
theorem run_tampered (hx : c.arch = .x64) (hf : f ∈ Arch.x64.schema)
    (hi : instruction? f.slot = some tool.instruction) (ht : t.arch = .x64)
    (hpair : t.snapshots? c.slot = some pair) (hbody : Passes d.block.body t u)
    (hrun : (run d.block).Ends t (.ok (.exit e)) v) :
    (f.slot.Ruinable u.registers → ∃ w,
        (run (c.processed n (tool.tampered d last).block)).Ends t
          (.error (.mismatch (f.mismatch .x64 (f.slot.ruined u.registers) u.registers))) w)
      ∧ (¬f.slot.Ruinable u.registers → ∃ w,
        (run (c.processed n (tool.tampered d last).block)).Ends t (.ok (.exit e)) w
          ∧ w.registers = v.registers) := by
  obtain ⟨hterm', hbody'⟩ := body_tampered hd hterm hb tool
  have hmachine := isMachine_tampered hd hterm hb tool
  have hslot : ¬f.slot.hidden := fun hidden => Slot.hidden_iff.1 hidden f hf rfl
  have htool : Passes [tool.entry d.nextId] u (u.setRegisters (f.slot.ruined u.registers)) := by
    rw [Passes, run_machine rfl]
    exact (step_ends_ok (Slot.step_ruined hslot hi u.registers)).bind (ends_pure _ _)
  have hfirst := hbody.run_append htool
  rw [← hbody'] at hfirst
  obtain ⟨file, hplain, herror, hok⟩ := Checker.run_processed (n := n)
    (numbered_tampered hd hterm hb tool).nodup hpair (ht.trans hx.symm)
    (fun x hx _ => hmachine x hx)
    (callsOnRegisters_of_callFree (Block.callFree_of_machine hmachine)) hfirst
  -- the plain run is that of the block from before
  have hprogram : (tool.tampered d last).block.body.app = d.block.body := by
    rw [hbody', Block.app_append, hb.body.app_eq]
    exact List.append_nil _
  rw [hprogram] at hplain
  obtain rfl : u = t.setRegisters file := (Ends.unique hbody hplain).2
  obtain ⟨hdiffers, hagrees⟩ := Arch.compare_ruined hf file
  rw [hx] at herror hok
  refine ⟨fun h => ⟨_, herror _ (hdiffers h)⟩, fun h => ?_⟩
  -- and its terminator comes at the end of both
  obtain ⟨r, -, hlast⟩ := run_cons_of_isTerminator (Block.terminator?_eq_some_iff.1 hterm).2.1
  have hends := hbody.run_append (hlast (t.setRegisters file) [])
  rw [← block_eq hd hterm hb] at hends
  obtain ⟨hexit, rfl⟩ := Ends.unique hrun hends
  rw [hterm'] at hok
  have hend := hok (hagrees h) _ _ (hlast _ [])
  rw [← hexit] at hend
  exact ⟨_, hend, rfl⟩

end Tampered

/-- In whichever order they have been set up, the tool comes before the checker. -/
theorem clients_of_setup {h₀ h : Host} {a a' : Activation} (hclients : h₀.clients = [])
    (hconfig : a.config = .new .x64)
    (hsetup : (∃ h₁, h₀.addClient tool.registration = (true, h₁)
        ∧ a.activate.Ends h₁ (.ok (.success, a')) h)
      ∨ ∃ h₁, a.activate.Ends h₀ (.ok (.success, a')) h₁
        ∧ h₁.addClient tool.registration = (true, h)) :
    ∃ c : Checker, c.Registered ∧ c.arch = .x64
      ∧ h.clients = [tool.registration, c.registration] := by
  have hchecker : ∀ {h₁ h₂ : Host}, a.activate.Ends h₁ (.ok (.success, a')) h₂ →
      ∃ c : Checker, c.Registered ∧ c.arch = .x64 ∧ c.priority = Config.defaultPriority
        ∧ h₂.clients = Host.place c.registration h₁.clients := by
    intro h₁ h₂ hact
    obtain ⟨-, c, hreg, -⟩ := Activation.activate_ends_success hact
    obtain ⟨-, -, -, heq⟩ := Checker.register_result_eq_ok hreg.1
    obtain ⟨harch, rfl⟩ := Checker.register_ends hreg
    rw [hconfig] at harch heq
    exact ⟨c, ⟨_, _, hreg.1⟩, harch, congrArg Checker.priority heq, rfl⟩
  rcases hsetup with ⟨h₁, hadd, hact⟩ | ⟨h₁, hact, hadd⟩
  · obtain ⟨c, hc, hx, hpriority, hplace⟩ := hchecker hact
    obtain rfl := Host.addClient_eq_true hadd
    refine ⟨c, hc, hx, ?_⟩
    rw [hplace, hclients]
    simp [Host.place, registration, Checker.registration, hpriority, defaultPriority,
      Config.defaultPriority]
  · obtain ⟨c, hc, hx, hpriority, hplace⟩ := hchecker hact
    obtain rfl := Host.addClient_eq_true hadd
    refine ⟨c, hc, hx, ?_⟩
    show Host.place tool.registration h₁.clients = _
    rw [hplace, hclients]
    simp [Host.place, registration, Checker.registration, hpriority, defaultPriority,
      Config.defaultPriority]

/-- A thread that starts holds a pair for the checker; the tool gives it nothing. -/
theorem spawn_ends {h h' : Host} (hclients : h.clients = [tool.registration, c.registration])
    (hs : (Host.spawn .x64).Ends h (.ok t) h') :
    t.arch = .x64 ∧ t.snapshots? c.slot = some .zero ∧ h'.clients = h.clients := by
  obtain ⟨htell, hkept⟩ := Host.spawn_ends hs
  rw [hclients] at htell
  obtain ⟨_, htool, hrest⟩ := Host.tellStarted_cons htell
  obtain ⟨-, rfl⟩ := Ends.unique htool (ends_pure _ _)
  obtain rfl := Checker.tellStarted_registrations (show (Host.tellStarted
    ([c].map Checker.registration)).Ends _ _ _ from hrest)
  exact ⟨rfl, snapshots?_withSnapshots _ _ _, hkept⟩

/-- Let the tool for a field and a checker at its usual place be the clients of the host, in
whichever order they have come, and let a thread have started. Where the body of a block comes to
its end and the terminator behind it leaves the block, a run of the block that has been through both
ends with a fault exactly if the instruction of the tool changes what the body leaves in the field.
The fault is a mismatch and names the field. In all other cases the run ends as a run of the block
from before, and with the same registers. -/
theorem detected_iff {h₀ h h' : Host} {a a' : Activation} (hclients : h₀.clients = [])
    (hconfig : a.config = .new .x64) (htool : ofField? name = some tool)
    (hsetup : (∃ h₁, h₀.addClient tool.registration = (true, h₁)
        ∧ a.activate.Ends h₁ (.ok (.success, a')) h)
      ∨ ∃ h₁, a.activate.Ends h₀ (.ok (.success, a')) h₁
        ∧ h₁.addClient tool.registration = (true, h))
    (hspawn : (Host.spawn .x64).Ends h (.ok t) h') (hd : d.Numbered) (hb : d.block.AppOnly)
    (helig : d.block.eligibility = .eligible) (hlast : d.block.lastApp? = some last)
    (hterm : last.isTerminator) :
    ∃ f, Arch.x64.field? name = some f
      ∧ ∃ d', (∀ u forTrace rebuilding, (h'.process u forTrace rebuilding).Ends d (.ok ()) d')
      ∧ ∀ file u e v,
        (execute d.block.body).Ends (t.setRegisters file) (.ok (.exit .fallThrough)) u →
        (execute d.block).Ends (t.setRegisters file) (.ok (.exit e)) v →
          ((∃ fault, (execute d'.block (t.setRegisters file)).result = .error fault)
            ↔ f.slot.Ruinable u.registers)
          ∧ (f.slot.Ruinable u.registers →
            (execute d'.block (t.setRegisters file)).result = .error (.mismatch ⟨f.name,
              ((f.slot.ruined u.registers).value f.slot 64).text,
              (u.registers.value f.slot 64).text⟩))
          ∧ (¬f.slot.Ruinable u.registers →
            ∃ w, (execute d'.block).Ends (t.setRegisters file) (.ok (.exit e)) w
              ∧ w.registers = v.registers) := by
  obtain ⟨f, hfield, hi⟩ := ofField?_eq_some htool
  have hf : f ∈ Arch.x64.schema := List.mem_of_find?_eq_some hfield
  obtain ⟨c, hc, hx, hboth⟩ := clients_of_setup hclients hconfig hsetup
  obtain ⟨ht, hpair, hkept⟩ := spawn_ends hboth hspawn
  have hterm' : d.block.terminator? = some last := by
    rw [Block.terminator?_of_lastApp? hlast, if_pos hterm]
  have hprogram : (tool.tampered d last).block.app ≠ [] := by
    rw [app_tampered hd hterm']
    exact Block.app_ne_nil_of_lastApp? hlast
  have hp := (Checker.processBlock_checked hc.fits (numbered_tampered hd hterm' hb tool)
    (eligibility_tampered hd hterm' tool helig) hprogram).1
  refine ⟨f, hfield, (c.processBlock (tool.tampered d last)).state,
    fun u forTrace rebuilding => ?_, fun file u e v hbody hrun => ?_⟩
  · rw [Host.process, hkept, hboth]
    refine Host.tellBuilt_cons (built_ends hd hterm' hb tool u forTrace rebuilding) ?_
    refine Host.tellBuilt_cons ?_ (ends_pure _ _)
    exact Checker.built_ends (congrArg Outcome.result hp) u forTrace rebuilding
  have ht' : (t.setRegisters file).arch = .x64 := ht
  rw [execute_ends_iff ht'] at hbody hrun
  obtain ⟨hdiffers, hagrees⟩ := run_tampered (c := c) (n := d.nextId + 1) (t := t.setRegisters file)
    hd hterm' hb hx hf hi ht' hpair hbody hrun
  rw [hp]
  by_cases hchange : f.slot.Ruinable u.registers
  · obtain ⟨w, hw⟩ := hdiffers hchange
    have hends := (execute_ends_iff ht').2 hw
    exact ⟨⟨fun _ => hchange, fun _ => ⟨_, hends.1⟩⟩, fun _ => hends.1, fun h => absurd hchange h⟩
  · obtain ⟨w, hw, hregs⟩ := hagrees hchange
    have hends := (execute_ends_iff ht').2 hw
    refine ⟨⟨?_, fun h => absurd h hchange⟩, fun h => absurd h hchange, fun _ => ⟨w, hends, hregs⟩⟩
    rintro ⟨fault, hresult⟩
    cases hends.1.symm.trans hresult

/-- The tool for the accumulator, named in capitals. -/
def accumulating : Clobber := ⟨"rax", loadPattern Gpr.accumulator⟩

/-- A host with the tool and a checker that has come after it. -/
def crowded : Host := Checker.first.settle { Host.new with clients := [accumulating.registration] }

theorem ofField?_accumulating : ofField? "RAX" = some accumulating := by
  decide +kernel

theorem activate_crowded : (Activation.new (.new .x64)).activate.Ends
    { Host.new with clients := [accumulating.registration] }
    (.ok (.success, ⟨.new .x64, 1, some Checker.first⟩)) crowded := by
  refine Activation.activate_ends_ok rfl (Checker.register_ends_ok (by decide) ?_ ?_)
  · unfold Host.HasNotes
    decide
  · unfold Host.Refuses
    decide

theorem spawn_crowded : (Host.spawn .x64).Ends crowded (.ok .subject)
    { crowded with nextThread := 2 } := ⟨rfl, rfl⟩

/-- The program adds one to the accumulator, and the tool overwrites the sum. -/
theorem detected_iff_accumulating :
    ∃ d', (∀ u forTrace rebuilding,
        (Host.process { crowded with nextThread := 2 } u forTrace rebuilding).Ends .counting
          (.ok ()) d')
      ∧ (execute d'.block subject).result
        = .error (.mismatch ⟨"rax", "0x5a5a5a5a5a5a5a5a", "0x1"⟩) := by
  have hsetup : ∃ h₁, Host.new.addClient accumulating.registration = (true, h₁)
      ∧ (Activation.new (.new .x64)).activate.Ends h₁
        (.ok (.success, ⟨.new .x64, 1, some Checker.first⟩)) crowded :=
    ⟨_, rfl, activate_crowded⟩
  obtain ⟨f, hf, d', hprocess, hruns⟩ := detected_iff (d := .counting) rfl rfl ofField?_accumulating
    (.inl hsetup) spawn_crowded (by decide) (by decide) rfl rfl rfl
  have hfield : Arch.x64.field? "RAX" = some ⟨"rax", .gpr 0⟩ := by decide +kernel
  obtain rfl := Option.some.inj (hfield.symm.trans hf)
  obtain ⟨-, hfault, -⟩ := hruns .zero _ _ _ ⟨rfl, rfl⟩ ⟨rfl, rfl⟩
  refine ⟨d', hprocess, (hfault ?_).trans ?_⟩
  · show _ ≠ pattern
    decide +kernel
  · exact congrArg (Except.error ∘ Fault.mismatch) (by decide +kernel)

end Clobber

end Rerun
