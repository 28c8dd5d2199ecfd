import Mathlib.Algebra.Group.Nat.Defs
import Mathlib.Data.List.Nodup
import Rerun.Proofs.Hidden
import Rerun.Proofs.Sites
import Rerun.Proofs.Transparent

/-!
# Checkers that come one after another

A checker that comes after another one finds two copies of the program in the block, that of the
first run and that of the second, and its plain run is a run of both. So it compares what one run
of the program leaves with what two runs leave (`Nests`). A block that has been through several
checkers ends as it did before them exactly if a second run of the program changes nothing, and
otherwise with the fault that names the first field in which the second run makes a difference
(`coexist_iff`).
-/

namespace Rerun

open Rerun.Action Thread

namespace Block

variable {a b : Block} {file file' file'' : RegisterFile} {t u : Thread} {n : Nat}

/-- From the first registers, the block comes to its end with the second ones. -/
def Leads (a : Block) (file file' : RegisterFile) : Prop :=
  ∀ t : Thread, t.registers = file → Passes a t (t.setRegisters file')

theorem leads_nil (file : RegisterFile) : Leads [] file file := by
  rintro t rfl
  exact passes_nil t

theorem Leads.append (ha : a.Leads file file') (hb : b.Leads file' file'') :
    (a ++ b).Leads file file'' :=
  fun t ht => (ha t ht).run_append (hb (t.setRegisters file') rfl)

theorem leads_congr (h : a.map (·.content) = b.map (·.content)) :
    a.Leads file file' ↔ b.Leads file file' := by
  unfold Leads Passes
  rw [run_congr h]

theorem leads_of_passes (ha : a.CallFree) (h : Passes a t u) : a.Leads t.registers u.registers :=
  fun _ hv => (run_onRegisters (callsOnRegisters_of_callFree ha)).ends h hv

theorem Leads.unique (h : a.Leads file file') (h' : a.Leads file file'') : file' = file'' := by
  have hends := Ends.unique (h ((Thread.new 0 .x64).setRegisters file) rfl) (h' _ rfl)
  exact congrArg Thread.registers hends.2

/-- A block a number of times in a row. -/
def copies (n : Nat) (a : Block) : Block := (List.replicate n a).flatten

theorem copies_succ (n : Nat) (a : Block) : copies (n + 1) a = a ++ copies n a := by
  rw [copies, List.replicate_succ, List.flatten_cons]
  rfl

theorem copies_one (a : Block) : copies 1 a = a := by
  simp [copies]

theorem copies_append (n m : Nat) (a : Block) :
    copies n a ++ copies m a = copies (n + m) a := by
  rw [copies, copies, copies, ← List.flatten_append, List.replicate_append_replicate]

/-- A block that has no effect a second time has none however often it runs. -/
theorem Leads.copies (h : a.Leads file file') (h' : a.Leads file' file') (hn : 0 < n) :
    (copies n a).Leads file file' := by
  induction n generalizing file with
  | zero => exact absurd hn (Nat.lt_irrefl 0)
  | succ n ih =>
    rw [copies_succ]
    refine h.append ?_
    rcases Nat.eq_zero_or_pos n with rfl | hn
    · exact leads_nil file'
    · exact ih h' hn

/-- A second run changes nothing, or it makes a difference that a comparison finds. -/
theorem Leads.again (h : a.Leads file file') (ha : a.AppOnly) :
    a.Leads file' file' ∨ ∃ file'' m, a.Leads file' file''
      ∧ Arch.x64.compare file' file'' = some m := by
  have hfree : a.CallFree := callFree_of_machine ha.isMachine
  have hfirst : Passes a ((Thread.new 0 .x64).setRegisters file) _ := h _ rfl
  -- whether an instruction proceeds does not depend on the registers
  obtain ⟨file'', hsecond⟩ := passes_of_proceeds (b := a) (fun e he => by
    obtain ⟨i, hi⟩ := ha.isMachine e he
    exact ⟨i, hi, hfirst.proceeds he hi⟩) ((Thread.new 0 .x64).setRegisters file')
  have hleads : a.Leads file' file'' := leads_of_passes hfree hsecond
  rcases hm : Arch.x64.compare file' file'' with _ | m
  · have hboth : (a ++ a).CallFree := fun e he => hfree e (by simpa using he)
    have heq : file' = file'' := execute_eq_of_compare hfree hboth
      (t := (Thread.new 0 .x64).setRegisters file) (u := (Thread.new 0 .x64).setRegisters file)
      rfl ((execute_ends_iff rfl).2 hfirst)
      ((execute_ends_iff rfl).2 (h.append hleads _ rfl)) hm
    exact .inl (heq ▸ hleads)
  · exact .inr ⟨file'', m, hleads, hm⟩

/-- If a thread runs the body of the block to its end, a second run from there changes nothing. -/
def Settles (b : Block) (t : Thread) : Prop := ∀ u, Passes b.body t u → Passes b.body u u

/-- A thread can run the body of the block twice, and the second run makes the difference `m`. -/
def Differs (b : Block) (t : Thread) (m : Mismatch) : Prop :=
  ∃ u v, Passes b.body t u ∧ Passes b.body u v
    ∧ Arch.x64.compare u.registers v.registers = some m

theorem settles_or_differs (hb : b.AppOnly) (t : Thread) :
    b.Settles t ∨ ∃ m, b.Differs t m := by
  by_cases h : b.Settles t
  · exact .inl h
  · obtain ⟨u, hu, hne⟩ : ∃ u, Passes b.body t u ∧ ¬Passes b.body u u := by
      simpa [Settles] using h
    have hleads := leads_of_passes (callFree_of_machine hb.body.isMachine) hu
    rcases hleads.again hb.body with hagain | ⟨file, m, hsecond, hm⟩
    · exact absurd (hagain u rfl) hne
    · exact .inr ⟨m, u, u.setRegisters file, hu, hsecond u rfl, hm⟩

theorem Differs.not_settles {m : Mismatch} (h : b.Differs t m) : ¬b.Settles t := by
  rintro hsettles
  obtain ⟨u, v, hu, hv, hm⟩ := h
  obtain ⟨-, rfl⟩ := Ends.unique hv (hsettles u hu)
  rw [Arch.compare_self] at hm
  cases hm

end Block

namespace Checker

variable {a b : Block} {c : Checker} {cs rest : List Checker} {d : Draft} {t u : Thread}
  {file file' : RegisterFile} {n : EntryId} {m : Mismatch}

/-- The thread can run what the checkers of a list have processed. -/
structure Ready (cs : List Checker) (t : Thread) : Prop where
  arch : t.arch = .x64
  pairs : ∀ c ∈ cs, ∃ pair, t.snapshots? c.slot = some pair

theorem Ready.saved (ht : Ready (c :: cs) t) (hc : c.slot ∉ cs.map (·.slot)) (pair : Snapshots) :
    Ready cs (c.saved t pair) := by
  refine ⟨ht.arch, fun c' hc' => ?_⟩
  have hne : c'.slot ≠ c.slot := fun heq => hc (heq ▸ List.mem_map_of_mem hc')
  have hkept : (c.saved t pair).snapshots? c'.slot = t.snapshots? c'.slot :=
    snapshots?_congr (slot_withSnapshots_of_ne hne t _)
  rw [hkept]
  exact ht.pairs c' (List.mem_cons_of_mem _ hc')

/-- The block `b` is `a`, run as often as the checkers of a list ask for. It ends early if `a` does,
comes to its end if there are not two checkers, or if `a` has no effect a second time, and ends with
a fault otherwise. -/
structure Nests (a : Block) (cs : List Checker) (b : Block) : Prop where
  stops : ∀ {t r u}, Ready cs t → (run a).Ends t r u → r ≠ .ok (.exit .fallThrough) →
    ∃ v, (run b).Ends t r v ∧ v.registers = u.registers
  passes : ∀ {t file}, Ready cs t → a.Leads t.registers file →
    cs.length ≤ 1 ∨ a.Leads file file → ∃ v, Passes b t v ∧ v.registers = file ∧ v.arch = t.arch
      ∧ ∀ k, k ∉ cs.map (·.slot) → v.slot k = t.slot k
  faults : ∀ {t file file' m}, Ready cs t → a.Leads t.registers file → a.Leads file file' →
    Arch.x64.compare file file' = some m → 1 < cs.length →
      ∃ v, (run b).Ends t (.error (.mismatch m)) v

theorem nests_nil (a : Block) : Nests a [] a where
  stops _ h _ := ⟨_, h, rfl⟩
  passes _ h _ := ⟨_, h _ rfl, rfl, rfl, fun _ _ => rfl⟩
  faults _ _ _ _ h := absurd h (Nat.not_lt_zero 1)

/-- One more checker compares what the checkers before it leave with what a run of the copies
leaves that they have made. -/
theorem Nests.run_checkedBody (hs : Nests a cs b.body) (hn : (b.map (·.id)).Nodup)
    (hx : c.arch = .x64) (hc : c.slot ∉ cs.map (·.slot))
    (hcopies : b.body.app.map (·.content) = (Block.copies (2 ^ cs.length) a).map (·.content))
    (ht : Ready (c :: cs) t) (hfile : a.Leads t.registers file)
    (hcond : cs.length ≤ 1 ∨ a.Leads file file)
    (hcopy : (Block.copies (2 ^ cs.length) a).Leads t.registers file') :
    ∃ v, v.registers = file' ∧ v.arch = t.arch
      ∧ (∀ k, k ∉ (c :: cs).map (·.slot) → v.slot k = t.slot k)
      ∧ (∀ m, Arch.x64.compare file file' = some m →
        (run (c.checkedBody n b)).Ends t (.error (.mismatch m)) v)
      ∧ (Arch.x64.compare file file' = none → Passes (c.checkedBody n b) t v) := by
  obtain ⟨pair, hpair⟩ := ht.pairs c List.mem_cons_self
  obtain ⟨u, hbody, rfl, hu, hkept⟩ :=
    hs.passes (t := c.saved t pair) (ht.saved hc pair) hfile hcond
  have hslot : u.snapshots? c.slot = some { pair with forRestore := t.registers } := by
    rw [snapshots?_congr (hkept c.slot hc)]
    exact snapshots?_withSnapshots t c.slot _
  -- the plain run begins with the registers that were saved, and runs every copy
  have hplain : Passes b.body.app (c.rewound t u t.registers) (c.rewound t u file') :=
    (Block.leads_congr hcopies).2 hcopy _ rfl
  have harch : u.arch = c.arch := hu.trans (ht.arch.trans hx.symm)
  have hends := Checker.run_checkedBody (n := n) hn hpair hbody hslot harch hplain
  rw [hx] at hends
  refine ⟨c.rewound t u file', rfl, hu, fun k hk => ?_, hends⟩
  rw [List.map_cons, List.mem_cons, not_or] at hk
  calc (c.rewound t u file').slot k
    _ = u.slot k := slot_withSnapshots_of_ne hk.1 u _
    _ = (c.saved t pair).slot k := hkept k hk.2
    _ = t.slot k := slot_withSnapshots_of_ne hk.1 t _

theorem Nests.check (hs : Nests a cs b.body) (hn : (b.map (·.id)).Nodup) (ha : a.CallFree)
    (hx : c.arch = .x64) (hc : c.slot ∉ cs.map (·.slot))
    (hcopies : b.body.app.map (·.content) = (Block.copies (2 ^ cs.length) a).map (·.content)) :
    Nests a (c :: cs) (c.checkedBody n b) := by
  constructor
  · intro t r u ht hends hr
    obtain ⟨pair, hpair⟩ := ht.pairs c List.mem_cons_self
    have hsaved := (run_onRegisters (callsOnRegisters_of_callFree ha)).ends (u := c.saved t pair)
      hends rfl
    obtain ⟨v, hv, hregs⟩ := hs.stops (ht.saved hc pair) hsaved hr
    exact ⟨v, run_checkedBody_of_stops hpair hv hr, hregs⟩
  · intro t file ht hfile hcond
    have hinner : cs.length ≤ 1 ∨ a.Leads file file :=
      hcond.imp_left fun h => Nat.le_trans (Nat.le_succ _) h
    -- a first checker finds one copy, and a later one finds copies without a further effect
    have hcopy : (Block.copies (2 ^ cs.length) a).Leads t.registers file := by
      rcases hcond with hlen | hagain
      · obtain rfl := List.length_eq_zero_iff.1 (Nat.le_zero.1 (Nat.le_of_succ_le_succ hlen))
        exact (Block.copies_one a).symm ▸ hfile
      · exact hfile.copies hagain (Nat.two_pow_pos cs.length)
    obtain ⟨v, hregs, harch, hslots, -, hpass⟩ :=
      hs.run_checkedBody hn hx hc hcopies ht hfile hinner hcopy
    exact ⟨v, hpass (Arch.compare_self _ _), hregs, harch, hslots⟩
  · intro t file file' m ht hfile hfile' hm hlen
    rcases Nat.eq_or_lt_of_le (Nat.le_of_lt_succ hlen) with hone | hmore
    · -- the second checker is the first to find two copies
      have hcopy : (Block.copies (2 ^ cs.length) a).Leads t.registers file' := by
        rw [← hone, Nat.pow_one, ← Block.copies_append 1 1, Block.copies_one]
        exact hfile.append hfile'
      obtain ⟨v, -, -, -, herror, -⟩ := hs.run_checkedBody hn hx hc hcopies ht hfile
        (.inl (Nat.le_of_eq hone.symm)) hcopy
      exact ⟨v, herror m hm⟩
    · -- a later one does not get to compare
      obtain ⟨pair, hpair⟩ := ht.pairs c List.mem_cons_self
      obtain ⟨v, hv⟩ := hs.faults (ht.saved hc pair) hfile hfile' hm hmore
      exact ⟨v, run_checkedBody_of_stops hpair hv nofun⟩

/-- The draft holds the block `b`, with a program, as the checkers of a list have left it. -/
structure Stage (b : Block) (cs : List Checker) (d : Draft) : Prop where
  numbered : d.Numbered
  eligible : d.block.eligibility = .eligible
  program : d.block.app ≠ []
  split : d.block = d.block.body ++ d.block.terminator?.toList
  copies : d.block.body.app.map (·.content)
    = (Block.copies (2 ^ cs.length) b.body).map (·.content)
  terminator : d.block.terminator?.toList.map (·.content)
    = b.terminator?.toList.map (·.content)
  nests : Nests b.body cs d.block.body

theorem stage_nil (hd : d.Numbered) (hb : d.block.AppOnly) (helig : d.block.eligibility = .eligible)
    (hne : d.block ≠ []) : Stage d.block [] d where
  numbered := hd
  eligible := helig
  program := hb.app_eq.symm ▸ hne
  split := hb.split hd.nodup
  copies := by rw [hb.body.app_eq, List.length_nil, Nat.pow_zero, Block.copies_one]
  terminator := rfl
  nests := nests_nil d.block.body

theorem Stage.check (hs : Stage b cs d) (hb : b.AppOnly) (hc : c.Registered) (hx : c.arch = .x64)
    (hslot : c.slot ∉ cs.map (·.slot)) :
    (∃ outcome, (c.processBlock d).result = .ok outcome)
      ∧ Stage b (c :: cs) (c.processBlock d).state := by
  obtain ⟨hp, hn⟩ := processBlock_checked hc.fits hs.numbered hs.eligible hs.program
  obtain ⟨hbody, hterm⟩ := body_processed hn.nodup
  have happ : (c.processed d.nextId d.block).app
      = d.block.body.app ++ (d.block.renumber d.nextId).app := by
    rw [Block.app_body hn.nodup, hbody, hterm, app_checkedBody, List.append_assoc,
      ← Block.app_body (Block.nodup_renumber _ _)]
  rw [hp]
  refine ⟨⟨_, rfl⟩, hn, ?_, ?_, ?_, ?_, ?_, ?_⟩
  · -- the copies have no effects that the program has not
    have helig := Block.eligibility_eq_eligible_iff.1 hs.eligible
    show Block.eligibility (c.processed d.nextId d.block) = .eligible
    rw [Block.eligibility_eq_eligible_iff, happ, List.forall_mem_append]
    refine ⟨fun e he => helig e ?_, Block.sideEffect?_renumber helig _⟩
    exact (d.block.body_sublist.filter _).subset he
  · intro hnil
    have hcopy := (List.append_eq_nil_iff.1 (happ.symm.trans hnil)).2
    refine hs.program (List.eq_nil_of_length_eq_zero ?_)
    rw [← Block.length_app_renumber d.nextId, hcopy, List.length_nil]
  · show c.processed d.nextId d.block = _
    rw [hbody, hterm, processed_eq]
  · show (c.processed d.nextId d.block).body.app.map (·.content) = _
    rw [hbody, app_checkedBody, List.map_append,
      Block.map_app_body_renumber (fun _ _ => rfl) _ hs.numbered.nodup, hs.copies,
      ← List.map_append, Block.copies_append, ← Nat.two_mul, ← Nat.pow_succ']
    rfl
  · show (c.processed d.nextId d.block).terminator?.toList.map (·.content) = _
    rw [hterm, Block.map_terminator?_renumber fun _ _ => rfl, hs.terminator]
  · show Nests b.body (c :: cs) (c.processed d.nextId d.block).body
    rw [hbody]
    exact hs.nests.check hs.numbered.nodup (Block.callFree_of_machine hb.body.isMachine) hx hslot
      hs.copies

theorem Stage.process (hs : Stage b cs d) (hb : b.AppOnly)
    (hrest : ∀ c ∈ rest, c.Registered ∧ c.arch = .x64)
    (hslots : ((rest ++ cs).map (·.slot)).Nodup) :
    ∃ d', Stage b (rest.reverse ++ cs) d' ∧ ∀ t forTrace rebuilding,
      (Host.tellBuilt t forTrace rebuilding (rest.map registration)).Ends d (.ok ()) d' := by
  induction rest generalizing cs d with
  | nil => exact ⟨d, hs, fun _ _ _ => ends_pure _ _⟩
  | cons c rest ih =>
    obtain ⟨hc, hx⟩ := hrest c List.mem_cons_self
    have hslot : c.slot ∉ cs.map (·.slot) := fun hmem =>
      (List.nodup_cons.1 hslots).1 (by simpa using .inr (List.mem_map.1 hmem))
    have hmiddle : ((rest ++ c :: cs).map (·.slot)).Nodup :=
      ((List.perm_middle.map _).nodup_iff).2 hslots
    obtain ⟨⟨outcome, ho⟩, hs'⟩ := hs.check hb hc hx hslot
    obtain ⟨d', hd', hends⟩ := ih hs' (fun x hx => hrest x (List.mem_cons_of_mem _ hx)) hmiddle
    refine ⟨d', by simpa using hd', fun t forTrace rebuilding => ?_⟩
    exact Host.tellBuilt_cons (built_ends ho t forTrace rebuilding) (hends t forTrace rebuilding)

/-- Without a program there is nothing to do for any checker. -/
theorem process_empty (h : d.block = []) (cs : List Checker) (t : Thread)
    (forTrace rebuilding : Bool) :
    (Host.tellBuilt t forTrace rebuilding (cs.map registration)).Ends d (.ok ()) d := by
  induction cs with
  | nil => exact ends_pure _ _
  | cons c rest ih =>
    have helig : d.block.eligibility = .eligible := by
      rw [h]
      rfl
    have happ : d.block.app = [] := by
      rw [h]
      rfl
    have hp : c.processBlock d = ⟨.ok .empty, d, []⟩ := processBlock_empty helig happ
    have hbuilt := built_ends (c := c) (d := d) (by rw [hp]) t forTrace rebuilding
    rw [hp] at hbuilt
    exact Host.tellBuilt_cons hbuilt ih

theorem Stage.run_of_again (hs : Stage b cs d) (hb : b.AppOnly)
    (hsplit : b = b.body ++ b.terminator?.toList) (ht : Ready cs t)
    (hcond : cs.length ≤ 1 ∨ ∀ file, b.body.Leads t.registers file → b.body.Leads file file) :
    ∃ ending u v, (run b).Ends t (.ok ending) u ∧ (run d.block).Ends t (.ok ending) v
      ∧ v.registers = u.registers := by
  obtain ⟨ending, file, hbody⟩ := run_ends_of_machine hb.body.isMachine t
  rw [hs.split]
  by_cases he : ending = .exit .fallThrough
  · subst he
    have hleads := Block.leads_of_passes (Block.callFree_of_machine hb.body.isMachine) hbody
    obtain ⟨v, hv, hregs, -⟩ := hs.nests.passes ht hleads (hcond.imp_right fun h => h _ hleads)
    obtain ⟨ending, hterm⟩ := run_terminator b
    refine ⟨ending, t.setRegisters file, v, ?_, hv.run_append ?_, hregs⟩
    · rw [hsplit]
      exact Passes.run_append hbody (hterm _)
    · rw [run_congr hs.terminator]
      exact hterm v
  · have hne : Except.ok (ε := Fault) ending ≠ .ok (.exit .fallThrough) := by simpa using he
    obtain ⟨v, hv, hregs⟩ := hs.nests.stops ht hbody hne
    refine ⟨ending, t.setRegisters file, v, ?_, run_append_of_stops hv hne _, hregs⟩
    rw [hsplit]
    exact run_append_of_stops hbody hne _

theorem Stage.run_of_mismatch (hs : Stage b cs d) (ht : Ready cs t)
    (hfile : b.body.Leads t.registers file) (hfile' : b.body.Leads file file')
    (hm : Arch.x64.compare file file' = some m) (hlen : 1 < cs.length) :
    ∃ v, (run d.block).Ends t (.error (.mismatch m)) v := by
  obtain ⟨v, hv⟩ := hs.nests.faults ht hfile hfile' hm hlen
  rw [hs.split]
  exact ⟨v, run_append_of_stops hv nofun _⟩

/-- A block that several checkers have been through, and what becomes of its runs. -/
theorem exists_processed (hd : d.Numbered) (hb : d.block.AppOnly)
    (helig : d.block.eligibility = .eligible) (hcs : ∀ c ∈ cs, c.Registered ∧ c.arch = .x64)
    (hslots : (cs.map (·.slot)).Nodup) :
    ∃ d', (∀ t forTrace rebuilding,
        (Host.tellBuilt t forTrace rebuilding (cs.map registration)).Ends d (.ok ()) d')
      ∧ ∀ t, Ready cs t →
        (cs.length ≤ 1 ∨ d.block.Settles t → ∃ ending u v, (run d.block).Ends t (.ok ending) u
          ∧ (run d'.block).Ends t (.ok ending) v ∧ v.registers = u.registers)
        ∧ ∀ m, 1 < cs.length → d.block.Differs t m →
          (run d'.block t).result = .error (.mismatch m) := by
  have hfree := Block.callFree_of_machine hb.body.isMachine
  by_cases hne : d.block = []
  · refine ⟨d, process_empty hne cs, fun t ht => ⟨fun _ => ?_, fun m _ hdiffers => ?_⟩⟩
    · rw [hne]
      exact ⟨_, t, t, passes_nil t, passes_nil t, rfl⟩
    · refine absurd (fun u hu => ?_) hdiffers.not_settles
      rw [hne] at hu ⊢
      exact passes_nil u
  · obtain ⟨d', hd', hends⟩ := (stage_nil hd hb helig hne).process hb hcs (by simpa using hslots)
    rw [List.append_nil] at hd'
    refine ⟨d', hends, fun t ht => ?_⟩
    have ht' : Ready cs.reverse t := ⟨ht.arch, fun c hc => ht.pairs c (List.mem_reverse.1 hc)⟩
    refine ⟨fun hcond => ?_, fun m hlen hdiffers => ?_⟩
    · rw [← cs.length_reverse] at hcond
      refine hd'.run_of_again hb (hb.split hd.nodup) ht' ?_
      refine hcond.imp_right fun hsettles file hfile => ?_
      exact Block.leads_of_passes hfree (hsettles _ (hfile t rfl))
    · rw [← cs.length_reverse] at hlen
      obtain ⟨u, v, hu, hv, hm⟩ := hdiffers
      obtain ⟨w, hw⟩ := hd'.run_of_mismatch ht' (Block.leads_of_passes hfree hu)
        (Block.leads_of_passes hfree hv) hm hlen
      exact hw.1

/-- There is no third way for a run to end. -/
theorem run_iff {k : Nat} {b' : Block} (hb : b.AppOnly)
    (hsame : k ≤ 1 ∨ b.Settles t → ∃ ending u v, (run b).Ends t (.ok ending) u
      ∧ (run b').Ends t (.ok ending) v ∧ v.registers = u.registers)
    (hfault : ∀ m, 1 < k → b.Differs t m → (run b' t).result = .error (.mismatch m)) :
    ((∃ ending u v, (run b).Ends t (.ok ending) u ∧ (run b').Ends t (.ok ending) v
        ∧ v.registers = u.registers) ↔ k ≤ 1 ∨ b.Settles t)
      ∧ ∀ f, (run b' t).result = .error f ↔ 1 < k ∧ ∃ m, b.Differs t m ∧ f = .mismatch m := by
  by_cases hcond : k ≤ 1 ∨ b.Settles t
  · have hends := hsame hcond
    refine ⟨⟨fun _ => hcond, fun _ => hends⟩, fun f => ⟨fun hf => ?_, ?_⟩⟩
    · obtain ⟨ending, u, v, -, hv, -⟩ := hends
      cases hv.1.symm.trans hf
    · rintro ⟨hlen, m, hm, -⟩
      exact absurd hcond (not_or.2 ⟨Nat.not_le_of_lt hlen, hm.not_settles⟩)
  · obtain ⟨hlen, hsettles⟩ := not_or.1 hcond
    obtain ⟨m, hm⟩ := (Block.settles_or_differs hb t).resolve_left hsettles
    have hresult := hfault m (Nat.lt_of_not_le hlen) hm
    refine ⟨⟨?_, fun h => absurd h hcond⟩, fun f => ⟨fun hf => ?_, ?_⟩⟩
    · rintro ⟨ending, u, v, -, hv, -⟩
      cases hv.1.symm.trans hresult
    · rw [hresult] at hf
      exact ⟨Nat.lt_of_not_le hlen, m, hm, (Except.error.inj hf).symm⟩
    · rintro ⟨hlen, m, hm, rfl⟩
      exact hfault m hlen hm

end Checker

namespace Site

open Checker Host

variable {s : Site} {configs : List Config} {calls : Nat} {h h' : Host} {t : Thread} {d : Draft}

/-- If every checker asked for is set up and there are no other clients, the clients are the
checkers, in some order. -/
theorem Inv.exists_checkers (hs : Inv configs calls s) (hlive : ∀ a ∈ s.activations, 0 < a.count)
    (honly : ∀ r ∈ s.host.clients, ¬s.Foreign r.priority.name) :
    ∃ cs : List Checker, s.host.clients = cs.map registration ∧ cs.Perm s.live := by
  have hserves := hs.serves
  have hmem : ∀ r ∈ s.host.clients, ∃ c ∈ s.live, c.registration = r := by
    intro r hr
    obtain ⟨a, ha, hname⟩ : ∃ a ∈ s.activations, a.config.priority.name = r.priority.name := by
      simpa [Foreign] using honly r hr
    obtain ⟨c, hc⟩ := (hs.accounted a ha).matched.exists_checker (hlive a ha)
    have hclive : c ∈ s.live := List.mem_filterMap.2 ⟨a, ha, hc⟩
    refine ⟨c, hclive, List.inj_on_of_nodup_map hserves.names (hserves.clients c hclive) hr ?_⟩
    rw [← hname, ← ((hs.accounted a ha).checker c hc).1]
    rfl
  -- the clients stand in the order of their priorities, the live checkers in that of the site
  obtain ⟨cs, hcs, hsub⟩ : ∃ cs : List Checker, cs.map registration = s.host.clients
      ∧ ∀ c ∈ cs, c ∈ s.live := by
    generalize s.host.clients = clients at hmem
    induction clients with
    | nil => exact ⟨[], rfl, nofun⟩
    | cons r rest ih =>
      obtain ⟨c, hc, rfl⟩ := hmem r List.mem_cons_self
      obtain ⟨cs, rfl, hcs⟩ := ih fun r hr => hmem r (List.mem_cons_of_mem _ hr)
      exact ⟨c :: cs, rfl, List.forall_mem_cons.2 ⟨hc, hcs⟩⟩
  have hnames : (s.live.map (·.priority.name)).Nodup :=
    List.pairwise_map.2 (hserves.apart.imp And.left)
  have hnodup : (cs.map registration).Nodup := hcs ▸ List.Nodup.of_map _ hserves.names
  refine ⟨cs, hcs.symm, (List.perm_ext_iff_of_nodup (List.Nodup.of_map _ hnodup)
    (List.Nodup.of_map _ hnames)).2 fun c => ?_⟩
  refine ⟨hsub c, fun hc => ?_⟩
  obtain ⟨c', hc', heq⟩ := List.mem_map.1 (hcs ▸ hserves.clients c hc)
  have hsame := List.inj_on_of_nodup_map hnames (hsub c' hc') hc (congrArg (·.priority.name) heq)
  exact hsame ▸ hc'

/-- Let every checker asked for be set up on the host, with no other client, and let a thread have
started. A run of a block that has been through all of the checkers ends as a run of the block from
before, and with the same registers, exactly if there are not two checkers, or if a second run of
the body changes nothing. Otherwise it ends with a fault, which names the first difference that a
second run makes; there are no other faults. -/
theorem coexist_iff (hclients : h.clients = []) (htaken : h.taken = [])
    (hs : Reaches (start h configs) calls s) (hx : ∀ config ∈ configs, config.arch = .x64)
    (hlive : ∀ a ∈ s.activations, 0 < a.count)
    (honly : ∀ r ∈ s.host.clients, ¬s.Foreign r.priority.name)
    (hspawn : (Host.spawn .x64).Ends s.host (.ok t) h')
    (hd : d.Numbered) (hb : d.block.AppOnly) (helig : d.block.eligibility = .eligible) :
    ∃ d', (∀ u forTrace rebuilding, (h'.process u forTrace rebuilding).Ends d (.ok ()) d')
      ∧ ∀ file,
        ((∃ ending u v, (execute d.block).Ends (t.setRegisters file) (.ok ending) u
            ∧ (execute d'.block).Ends (t.setRegisters file) (.ok ending) v
            ∧ v.registers = u.registers)
          ↔ configs.length ≤ 1 ∨ d.block.Settles (t.setRegisters file))
        ∧ ∀ f, (execute d'.block (t.setRegisters file)).result = .error f
          ↔ 1 < configs.length ∧ ∃ m, d.block.Differs (t.setRegisters file) m
            ∧ f = .mismatch m := by
  have hinv := Inv.reaches hclients htaken hs
  obtain ⟨cs, hcs, hperm⟩ := hinv.exists_checkers hlive honly
  have hlength : cs.length = configs.length := hperm.length_eq.trans (hinv.length_live hlive)
  have hchecker : ∀ c ∈ cs, c.Registered ∧ c.arch = .x64 := by
    intro c hc
    obtain ⟨hregistered, config, hconfig, -, harch⟩ := hinv.checker_of_live (hperm.mem_iff.1 hc)
    exact ⟨hregistered, harch.trans (hx config hconfig)⟩
  have hslots : (cs.map (·.slot)).Nodup := ((hperm.map _).nodup_iff).2 hinv.serves.nodup_slots
  obtain ⟨htell, hkept⟩ := Host.spawn_ends hspawn
  rw [hcs] at htell
  obtain rfl := tellStarted_registrations htell
  obtain ⟨d', hprocess, hruns⟩ := exists_processed hd hb helig hchecker hslots
  rw [hlength] at hruns
  refine ⟨d', fun u forTrace rebuilding => ?_, fun file => ?_⟩
  · rw [Host.process, hkept, hcs]
    exact hprocess u forTrace rebuilding
  · have hready : Ready cs ((started cs (.new s.host.nextThread .x64)).setRegisters file) :=
      ⟨arch_started cs _, fun c hc => snapshots?_started cs (.inr (List.mem_map_of_mem hc))⟩
    obtain ⟨hsame, hfault⟩ := hruns _ hready
    have hiff := run_iff hb hsame hfault
    simpa only [Ends, execute_apply hready.arch] using hiff

/-- A checker that comes after those at the usual place. -/
def late : Config := ⟨.x64, ⟨"late", 9000⟩⟩

/-- The second of two checkers on a new host. -/
def second : Checker := offered late (first.settle Host.new) 1

theorem second_ends : (register late).Ends (first.settle Host.new) (.ok (.ok second))
    (second.settle (first.settle Host.new)) := by
  refine register_ends_ok (by decide) ?_ ?_
  · unfold Host.HasNotes
    decide
  · unfold Host.Refuses
    decide

/-- A host with two checkers. -/
def together : Site where
  host := second.settle (first.settle Host.new)
  activations := [⟨.new .x64, 1, some first⟩, ⟨late, 1, some second⟩]
  others := []

theorem reaches_together : Reaches (start Host.new [.new .x64, late]) 2 together := by
  have hfirst : (start Host.new [.new .x64, late]).activations
      = [] ++ .new (.new .x64) :: [.new late] := rfl
  have hsecond : (Site.mk (first.settle Host.new) [⟨.new .x64, 1, some first⟩, .new late]
      []).activations = [⟨.new .x64, 1, some first⟩] ++ .new late :: [] := rfl
  have hactivate : (Activation.new late).activate.Ends (first.settle Host.new)
      (.ok (.success, ⟨late, 1, some second⟩)) (second.settle (first.settle Host.new)) :=
    Activation.activate_ends_ok rfl second_ends
  have hcall : Reaches (start Host.new [.new .x64, late]) 1
      ⟨first.settle Host.new, [⟨.new .x64, 1, some first⟩, .new late], []⟩ :=
    .call .refl (.activate hfirst (Activation.activate_ends_ok rfl Checker.first_ends))
  exact .call hcall (.activate hsecond hactivate)

theorem not_foreign_together : ∀ r ∈ together.host.clients, ¬together.Foreign r.priority.name := by
  have hclients : together.host.clients = [first.registration, second.registration] := rfl
  rw [hclients]
  simp [Foreign, together, registration, first, second, offered]

/-- A thread that has been to both checkers. -/
def visitor : Thread := started [first, second] (.new 1 .x64)

theorem spawn_together : (Host.spawn .x64).Ends together.host (.ok visitor)
    { together.host with nextThread := 2 } := ⟨rfl, rfl⟩

theorem coexist_iff_together :
    ∃ d', (∀ u forTrace rebuilding,
        (Host.process { together.host with nextThread := 2 } u forTrace rebuilding).Ends .counting
          (.ok ()) d')
      ∧ ((∃ ending u v, (execute Draft.counting.block).Ends (visitor.setRegisters .zero)
            (.ok ending) u
          ∧ (execute d'.block).Ends (visitor.setRegisters .zero) (.ok ending) v
          ∧ v.registers = u.registers)
        ↔ Draft.counting.block.Settles (visitor.setRegisters .zero)) := by
  obtain ⟨d', hprocess, hruns⟩ := coexist_iff rfl rfl reaches_together (by decide) (by decide)
    not_foreign_together spawn_together (d := .counting) (by decide) (by decide) rfl
  exact ⟨d', hprocess, (hruns .zero).1.trans (or_iff_right (by decide))⟩

/-- The program adds one to a register. The second checker compares one addition with two. -/
theorem second_checker_faults :
    Reaches (start Host.new [.new .x64, late]) 2 together
      ∧ (∀ a ∈ together.activations, 0 < a.count)
      ∧ (∀ r ∈ together.host.clients, ¬together.Foreign r.priority.name)
      ∧ (Host.spawn .x64).Ends together.host (.ok visitor) { together.host with nextThread := 2 }
      ∧ Draft.counting.Numbered ∧ Draft.counting.block.AppOnly
      ∧ Draft.counting.block.eligibility = .eligible
      ∧ (execute Draft.counting.block visitor).result = .ok (.exit .ret)
      ∧ ∃ d', (Host.process { together.host with nextThread := 2 } visitor false false).Ends
          .counting (.ok ()) d'
        ∧ (execute d'.block visitor).result = .error (.mismatch ⟨"rax", "0x1", "0x2"⟩) :=
  ⟨reaches_together, by decide, not_foreign_together, spawn_together, by decide, by decide, rfl,
    by decide +kernel, _, ⟨rfl, rfl⟩, by decide +kernel⟩

end Site

end Rerun
