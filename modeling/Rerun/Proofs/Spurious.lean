import Rerun.Proofs.Checked

/-!
# Spurious faults

Tools may put entries behind the terminator of a block. A plain run never gets to them; a run of
the block that checks itself does, because the terminator has been moved to the end. A block whose
tools leave no trace in a plain run keeps its ending and its registers exactly if what stands
behind its terminator leaves no trace either (`exit_processed_iff`).
-/

namespace Rerun

open Rerun.Action Thread

/-- A return, and behind it an instruction of a tool that changes a register. -/
def Draft.trailing : Draft where
  block := [⟨0, .machine .ret, true, none⟩, ⟨1, .machine (.increment 11), false, none⟩]
  nextId := 2

namespace Checker

open Draft

variable {c : Checker} {d : Draft} {b : Block} {n : EntryId} {t u v w : Thread} {pair : Snapshots}
  {e : X64.BlockExit} {a m : Block} {x : Entry}

/-- Run from `t`, entries leave no trace in front of an exit `e`: they come to their end with
registers that compare equal, or leave by `e` with the same registers. -/
def Traceless (m : Block) (e : X64.BlockExit) (t : Thread) : Prop :=
  (∃ u, (run m).Ends t (.ok (.exit .fallThrough)) u
    ∧ Arch.x64.compare u.registers t.registers = none)
  ∨ ∃ u, (run m).Ends t (.ok (.exit e)) u ∧ u.registers = t.registers

/-- The block that checks itself leaves by `e` with the registers of `u`. -/
def Keeps (c : Checker) (n : EntryId) (b : Block) (t : Thread) (e : X64.BlockExit) (u : Thread) :
    Prop :=
  ∃ w, (run (c.processed n b)).Ends t (.ok (.exit e)) w ∧ w.registers = u.registers

variable {r : Except Fault Ending}

theorem traceless_iff_of_passes (h : Passes m t u) (he : e ≠ .fallThrough) :
    Traceless m e t ↔ Arch.x64.compare u.registers t.registers = none := by
  constructor
  · rintro (⟨w, hw, hnone⟩ | ⟨w, hw, -⟩)
    · obtain ⟨-, rfl⟩ := Ends.unique h hw
      exact hnone
    · cases (Ends.unique h hw).1
      exact absurd rfl he
  · intro hnone
    exact .inl ⟨u, h, hnone⟩

theorem traceless_iff_of_stops (h : (run m).Ends t r u) (hr : r ≠ .ok (.exit .fallThrough)) :
    Traceless m e t ↔ r = .ok (.exit e) ∧ u.registers = t.registers := by
  constructor
  · rintro (⟨w, hw, -⟩ | ⟨w, hw, hregs⟩)
    · exact absurd (Ends.unique h hw).1 hr
    · obtain ⟨rfl, rfl⟩ := Ends.unique h hw
      exact ⟨rfl, hregs⟩
  · rintro ⟨rfl, hregs⟩
    exact .inr ⟨u, h, hregs⟩

/-- If the body does not come to its end, the block ends as the body does. -/
theorem keeps_iff_of_stops (hpair : t.snapshots? c.slot = some pair) (hcalls : CallsOnRegisters b)
    (hbody : (run b.body).Ends t r v) (hr : r ≠ .ok (.exit .fallThrough)) :
    c.Keeps n b t e u ↔ r = .ok (.exit e) ∧ v.registers = u.registers := by
  have hrun := run_processed_of_stops (n := n) hpair hcalls hbody hr
  constructor
  · rintro ⟨w, hw, hregs⟩
    obtain ⟨rfl, rfl⟩ := Ends.unique hrun hw
    exact ⟨rfl, hregs⟩
  · rintro ⟨rfl, hregs⟩
    exact ⟨_, hrun, hregs⟩

/-- If the body comes to its end where the plain program leaves the same registers, the block goes
on to the terminator exactly if the comparison finds nothing. -/
theorem keeps_iff_of_passes (hn : (b.map (·.id)).Nodup)
    (hpair : t.snapshots? c.slot = some pair) (ha : t.arch = c.arch) (hx : c.arch = .x64)
    (hb : b.AppIsMachine) (hcalls : CallsOnRegisters b)
    (hbody : Passes b.body t v) (happ : Passes b.body.app t w) (hw : w.registers = u.registers)
    (hterm : ∀ t, (run b.terminator?.toList).Ends t (.ok (.exit e)) t) :
    c.Keeps n b t e u ↔ Arch.x64.compare v.registers u.registers = none := by
  obtain ⟨file, hfile, herror, hok⟩ := run_processed (n := n) hn hpair ha hb hcalls hbody
  obtain ⟨-, rfl⟩ := Ends.unique happ hfile
  obtain rfl : file = u.registers := hw
  rw [hx] at herror hok
  constructor
  · rintro ⟨w, hw, -⟩
    rcases hm : Arch.x64.compare v.registers u.registers with _ | m
    · rfl
    · cases (Ends.unique hw (herror m hm)).1
  · intro hnone
    exact ⟨_, hok hnone _ _ (hterm _), rfl⟩

/-- A block without a terminator has nothing behind it. -/
theorem keeps_of_no_terminator (hn : (b.map (·.id)).Nodup)
    (hpair : t.snapshots? c.slot = some pair) (ha : t.arch = c.arch) (hx : c.arch = .x64)
    (hb : b.AppIsMachine) (hcalls : CallsOnRegisters b)
    (hterm : b.terminator? = none) (hrun : (run b).Ends t (.ok (.exit e)) u)
    (happ : (run b.app).Ends t (.ok (.exit e)) v) (hv : v.registers = u.registers) :
    c.Keeps n b t e u := by
  rw [← Block.body_of_terminator?_eq_none hterm] at hrun happ
  by_cases he : e = .fallThrough
  · subst he
    refine (keeps_iff_of_passes hn hpair ha hx hb hcalls hrun happ hv ?_).2 (Arch.compare_self _ _)
    rw [hterm]
    exact fun t => ends_pure _ t
  · exact (keeps_iff_of_stops hpair hcalls hrun (by simpa using he)).2 ⟨rfl, rfl⟩

/-- If a run does not get as far as the terminator, it does not matter what stands behind it. -/
theorem keeps_of_not_passes (hpair : t.snapshots? c.slot = some pair) (hcalls : CallsOnRegisters b)
    (hbody : b.body = a ++ m) (hsplit : b = a ++ x :: m)
    (hrun : (run b).Ends t (.ok (.exit e)) u) (ha : ¬∃ t', Passes a t t') :
    c.Keeps n b t e u := by
  have hr : (run a t).result ≠ .ok (.exit .fallThrough) := fun h => ha ⟨_, h, rfl⟩
  obtain ⟨hres, rfl⟩ := Ends.unique hrun (hsplit ▸ run_append_of_stops ⟨rfl, rfl⟩ hr (x :: m))
  refine (keeps_iff_of_stops hpair hcalls ?_ hr).2 ⟨hres.symm, rfl⟩
  rw [hbody]
  exact run_append_of_stops ⟨rfl, rfl⟩ hr m

/-- If a run gets as far as the terminator, the registers are kept exactly if what stands behind
the terminator leaves no trace. -/
theorem keeps_iff_traceless (hpair : t.snapshots? c.slot = some pair) (harch : t.arch = c.arch)
    (hx : c.arch = .x64) (hb : (a ++ x :: m).AppIsMachine) (hcalls : CallsOnRegisters (a ++ x :: m))
    (hn : ((a ++ x :: m).map (·.id)).Nodup) (hterm : (a ++ x :: m).terminator? = some x)
    (hrun : (run (a ++ x :: m)).Ends t (.ok (.exit e)) u)
    (happ : (run (Block.app (a ++ x :: m))).Ends t (.ok (.exit e)) v)
    (hv : v.registers = u.registers) (ha : Passes a t w) :
    c.Keeps n (a ++ x :: m) t e u ↔ Traceless m e (t.setRegisters u.registers) := by
  obtain ⟨hxa, hxt, -⟩ := Block.terminator?_eq_some_iff.1 hterm
  have hbody := Block.body_append hn hterm
  have hm := Block.app_eq_nil_of_terminator? hn hterm
  obtain ⟨ending, hne, hends⟩ := run_cons_of_isTerminator hxt
  -- the terminator leaves the registers as the entries in front of it left them
  obtain ⟨he, rfl⟩ := Ends.unique (ha.run_append (hends w m)) hrun
  obtain rfl : ending = .exit e := Except.ok.inj he
  obtain ⟨file, hfile⟩ := ha.app fun y hy => hb y (List.mem_append_left _ hy)
  rw [Block.app_append, Block.app_cons_of_isApp hxa] at happ
  obtain ⟨-, rfl⟩ := Ends.unique (hfile.run_append (hends _ _)) happ
  have hplain : Passes (Block.body (a ++ x :: m)).app t (t.setRegisters file) := by
    rw [hbody, Block.app_append, hm, List.append_nil]
    exact hfile
  -- what stands behind the terminator only looks at the registers
  have hbehind := (run_onRegisters (b := m) (hcalls.subset (by simp))).ends
    (t := w) (u := t.setRegisters w.registers) ⟨rfl, rfl⟩ rfl
  by_cases hr : (run m w).result = .ok (.exit .fallThrough)
  · rw [hr] at hbehind
    rw [traceless_iff_of_passes hbehind (by simpa using hne)]
    refine keeps_iff_of_passes hn hpair harch hx hb hcalls (v := (run m w).state) ?_ hplain hv ?_
    · rw [hbody]
      exact ha.run_append ⟨hr, rfl⟩
    · rw [hterm]
      exact fun t => hends t []
  · rw [traceless_iff_of_stops hbehind hr]
    refine keeps_iff_of_stops hpair hcalls (v := (run m w).state) ?_ hr
    rw [hbody]
    exact ha.run_append ⟨rfl, rfl⟩

/-- Let a block leave by `e` with some registers, and its program alone do the same. Then the block
that checks itself does so too exactly if whatever stands behind the terminator, once a run gets
there, leaves no trace. -/
theorem exit_processed_iff (hc : c.Registered) (hx : c.arch = .x64) (hd : d.Numbered)
    (hb : d.block.AppIsMachine) (happ : d.block.app ≠ []) (helig : d.block.eligibility = .eligible)
    (hcalls : CallsOnRegisters d.block) (ht : t.arch = .x64)
    (hpair : t.snapshots? c.slot = some pair)
    (hrun : (execute d.block).Ends t (.ok (.exit e)) u)
    (hplain : (execute d.block.app).Ends t (.ok (.exit e)) v) (hv : v.registers = u.registers) :
    (∃ w, (execute (c.processBlock d).state.block).Ends t (.ok (.exit e)) w
        ∧ w.registers = u.registers)
      ↔ ∀ a x m, d.block = a ++ x :: m → d.block.lastApp? = some x → x.isTerminator →
        (∃ t', (execute a).Ends t (.ok (.exit .fallThrough)) t') →
          Traceless m e (t.setRegisters u.registers) := by
  rw [(processBlock_checked hc.fits hd helig happ).1]
  simp only [execute_ends_iff ht] at hrun hplain ⊢
  show c.Keeps d.nextId d.block t e u ↔ _
  have harch : t.arch = c.arch := ht.trans hx.symm
  constructor
  · rintro hkeeps a x m hsplit hl hxt ⟨w, ha⟩
    have hterm : d.block.terminator? = some x := by
      rw [Block.terminator?_of_lastApp? hl, if_pos hxt]
    have hn := hd.nodup
    rw [hsplit] at hkeeps hterm hn hb hcalls hrun hplain
    exact (keeps_iff_traceless hpair harch hx hb hcalls hn hterm hrun hplain hv ha).1 hkeeps
  · intro h
    rcases hterm : d.block.terminator? with _ | x
    · exact keeps_of_no_terminator hd.nodup hpair harch hx hb hcalls hterm hrun hplain hv
    obtain ⟨hxa, hxt, a, m, hsplit, hm⟩ := Block.terminator?_eq_some_iff.1 hterm
    by_cases ha : ∃ t', Passes a t t'
    · have htraceless := h a x m hsplit (Block.lastApp?_eq_some_iff.2 ⟨hxa, a, m, hsplit, hm⟩)
        hxt ha
      obtain ⟨w, ha⟩ := ha
      have hn := hd.nodup
      rw [hsplit] at hterm hn hb hcalls hrun hplain ⊢
      exact (keeps_iff_traceless hpair harch hx hb hcalls hn hterm hrun hplain hv ha).2 htraceless
    · refine keeps_of_not_passes hpair hcalls ?_ hsplit hrun ha
      rw [hsplit]
      exact Block.body_append (hsplit ▸ hd.nodup) (hsplit ▸ hterm)

theorem callsOnRegisters_trailing : CallsOnRegisters trailing.block := by
  simp [trailing, callsOnRegisters_cons, callsOnRegisters_nil]

theorem exit_processed_iff_trailing :
    (∃ w, (execute (first.processBlock trailing).state.block).Ends subject (.ok (.exit .ret)) w
        ∧ w.registers = subject.registers)
      ↔ ∀ a x m, trailing.block = a ++ x :: m → trailing.block.lastApp? = some x →
        x.isTerminator → (∃ t', (execute a).Ends subject (.ok (.exit .fallThrough)) t') →
          Traceless m .ret (subject.setRegisters subject.registers) :=
  exit_processed_iff registered_first rfl (by decide) (by decide) (List.cons_ne_nil _ _) rfl
    callsOnRegisters_trailing rfl rfl ⟨rfl, rfl⟩ ⟨rfl, rfl⟩ rfl

/-- The tool changes nothing in a plain run, and yet there is a fault. -/
theorem spurious_fault :
    first.Registered ∧ subject.snapshots? first.slot = some .zero
      ∧ trailing.Numbered ∧ trailing.block.app ≠ []
      ∧ trailing.block.AppIsMachine ∧ CallsOnRegisters trailing.block
      ∧ trailing.block.eligibility = .eligible
      ∧ (execute trailing.block).Ends subject (.ok (.exit .ret)) subject
      ∧ (execute trailing.block.app).Ends subject (.ok (.exit .ret)) subject
      ∧ (execute (first.processBlock trailing).state.block subject).result
        = .error (.mismatch ⟨"r11", "0x1", "0x0"⟩) :=
  ⟨registered_first, rfl, by decide, List.cons_ne_nil _ _, by decide, callsOnRegisters_trailing,
    rfl, ⟨rfl, rfl⟩, ⟨rfl, rfl⟩, rfl⟩

end Checker

end Rerun
