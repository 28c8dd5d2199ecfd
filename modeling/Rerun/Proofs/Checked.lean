import Rerun.Proofs.Processed
import Rerun.Proofs.Runs
import Rerun.Proofs.Saved

/-!
# Running a block that checks itself

If the body of the block comes to its end, so does the plain program, from the same registers. The
block then compares the two register files that they leave: it ends with a fault if there is a
difference, and otherwise with what the terminator does (`run_processed`). If the body does not
come to its end, the block ends as the body does (`run_processed_of_stops`).
-/

namespace Rerun

namespace Block

/-- What belongs to the program is instructions. -/
def AppIsMachine (b : Block) : Prop := ∀ e ∈ b, e.isApp → e.IsMachine

instance (b : Block) : Decidable b.AppIsMachine :=
  inferInstanceAs (Decidable (∀ e ∈ b, e.isApp → e.IsMachine))

end Block

namespace Thread

open Rerun.Action

variable {α : Type} {t t' u v : Thread} {a b : Block} {r : Except Fault Ending}

theorem run_called {c : Call} {n : EntryId} (hc : c.invoke.Ends t (.ok ()) t')
    (h : (run b).Ends t' r u) : (run (Draft.called c n :: b)).Ends t r u := by
  rw [run_call rfl]
  exact hc.bind h

theorem run_called_error {c : Call} {n : EntryId} {f : Fault} (hc : c.invoke.Ends t (.error f) t')
    (b : Block) : (run (Draft.called c n :: b)).Ends t (.error f) t' := by
  rw [run_call rfl]
  exact hc.bind_error

theorem run_entry (m : Markers) (kind : MarkerKind) (n : EntryId) (b : Block) :
    run (m.entry kind n :: b) = run b := run_label rfl b

/-- The copied program runs as the program does. -/
theorem run_app_body_renumber (hn : (b.map (·.id)).Nodup) (n : EntryId) :
    run (b.renumber n).body.app = run b.body.app :=
  run_congr (Block.map_app_body_renumber (fun _ _ => rfl) n hn)

theorem run_terminator?_renumber (n : EntryId) (b : Block) :
    run (b.renumber n).terminator?.toList = run b.terminator?.toList :=
  run_congr (Block.map_terminator?_renumber (fun _ _ => rfl) n b)

theorem save_invoke (k : Nat) (forCompare : Bool) :
    (Call.save k forCompare).invoke = save k forCompare := by
  cases forCompare <;> rfl

theorem run_terminator (b : Block) :
    ∃ r, ∀ t, (run b.terminator?.toList).Ends t (.ok r) t := by
  cases h : b.terminator? with
  | none => exact ⟨_, fun t => ends_pure _ t⟩
  | some x =>
    obtain ⟨r, -, hr⟩ := run_cons_of_isTerminator (Block.terminator?_eq_some_iff.1 h).2.1
    exact ⟨r, fun t => hr t []⟩

/-- If a run comes to its end, so does a run of the program alone. -/
theorem Passes.app (h : Passes b t u) (hb : b.AppIsMachine) :
    ∃ file, Passes b.app t (t.setRegisters file) := by
  refine passes_of_proceeds (fun e he => ?_) t
  obtain ⟨heb, ha⟩ := Block.mem_app.1 he
  obtain ⟨i, hi⟩ := hb e heb ha
  exact ⟨i, hi, h.proceeds heb hi⟩

end Thread

namespace Checker

open Rerun.Action Thread Draft

variable {c : Checker} {b : Block} {n : EntryId} {t t₁ u : Thread} {pair : Snapshots}
  {r : Except Fault Ending}

/-- The thread at the comparison: both runs are over, and the registers are those that the plain
one left. -/
def atComparison (c : Checker) (t t₁ : Thread) (file : RegisterFile) : Thread :=
  (t.withSnapshots c.slot ⟨t.registers, t₁.registers⟩).setRegisters file

/-- The thread in front of the body. -/
def saved (c : Checker) (t : Thread) (pair : Snapshots) : Thread :=
  t.withSnapshots c.slot { pair with forRestore := t.registers }

/-- The thread behind the body, with other registers and both snapshots taken. -/
def rewound (c : Checker) (t u : Thread) (file : RegisterFile) : Thread :=
  (u.withSnapshots c.slot ⟨t.registers, u.registers⟩).setRegisters file

theorem rewound_saved (c : Checker) (t : Thread) (pair : Snapshots) (file file' : RegisterFile) :
    c.rewound t ((c.saved t pair).setRegisters file') file
      = (t.withSnapshots c.slot ⟨t.registers, file'⟩).setRegisters file := by
  rw [rewound, saved, setRegisters_withSnapshots, withSnapshots_withSnapshots]
  rfl

/-- If the body does not come to its end, nothing behind it runs. -/
theorem run_checkedBody_of_stops (hpair : t.snapshots? c.slot = some pair)
    (hbody : (run b.body).Ends (c.saved t pair) r u) (hr : r ≠ .ok (.exit .fallThrough)) :
    (run (c.checkedBody n b)).Ends t r u := by
  refine run_called (save_invoke _ _ ▸ save_ends hpair false) ?_
  rw [run_entry]
  exact run_append_of_stops hbody hr _

/-- If the body and, from the registers saved, the plain program come to their ends, the registers
that they leave are compared. -/
theorem run_checkedBody {file : RegisterFile} (hn : (b.map (·.id)).Nodup)
    (hpair : t.snapshots? c.slot = some pair)
    (hbody : Passes b.body (c.saved t pair) u)
    (hkept : u.snapshots? c.slot = some { pair with forRestore := t.registers })
    (ha : u.arch = c.arch)
    (hplain : Passes b.body.app (c.rewound t u t.registers) (c.rewound t u file)) :
    (∀ m, c.arch.compare u.registers file = some m →
        (run (c.checkedBody n b)).Ends t (.error (.mismatch m)) (c.rewound t u file))
      ∧ (c.arch.compare u.registers file = none →
        Passes (c.checkedBody n b) t (c.rewound t u file)) := by
  have hboth : ∀ file,
      (c.rewound t u file).snapshots? c.slot = some ⟨t.registers, u.registers⟩ :=
    fun file => snapshots?_withSnapshots u c.slot _
  have hsave : (Call.save c.slot true).invoke.Ends u (.ok ()) (c.rewound t u u.registers) :=
    save_invoke c.slot true ▸ save_ends hkept true
  have hrestore : (Call.restore c.slot).invoke.Ends (c.rewound t u u.registers) (.ok ())
      (c.rewound t u t.registers) := restore_ends (hboth _)
  -- whatever the comparison says, the run gets there
  have harrive : ∀ r, (run [called (.compare c.slot c.arch) (n + b.length + 6),
      c.markers.entry .terminator (n + b.length + 2)]).Ends (c.rewound t u file) r
        (c.rewound t u file) → (run (c.checkedBody n b)).Ends t r (c.rewound t u file) := by
    intro r hr
    refine run_called (save_invoke _ _ ▸ save_ends hpair false) ?_
    rw [run_entry]
    refine hbody.run_append ?_
    refine run_called hsave ?_
    refine run_called hrestore ?_
    rw [run_entry]
    refine Passes.run_append ?_ hr
    rwa [Passes, run_app_body_renumber hn]
  refine ⟨fun m hm => harrive _ ?_, fun hnone => harrive _ ?_⟩
  · have hcompare : (Call.compare c.slot c.arch).invoke.Ends (c.rewound t u file)
        (.error (.mismatch m)) (c.rewound t u file) := compare_ends_error ha (hboth file) hm
    exact run_called_error hcompare _
  · have hcompare : (Call.compare c.slot c.arch).invoke.Ends (c.rewound t u file)
        (.ok ()) (c.rewound t u file) := compare_ends_ok ha (hboth file) hnone
    refine run_called hcompare ?_
    rw [run_entry]
    exact ends_pure _ _

/-- The first save, and then the body. -/
theorem run_processed_of_stops (hpair : t.snapshots? c.slot = some pair)
    (hcalls : CallsOnRegisters b) (hbody : (run b.body).Ends t r t₁)
    (hr : r ≠ .ok (.exit .fallThrough)) :
    (run (c.processed n b)).Ends t r
      ((t.withSnapshots c.slot { pair with forRestore := t.registers }).setRegisters
        t₁.registers) := by
  have hfirst := (run_onRegisters (hcalls.subset b.body_sublist.subset)).ends
    (u := c.saved t pair) hbody rfl
  rw [processed_eq]
  exact run_append_of_stops (run_checkedBody_of_stops hpair hfirst hr) hr _

/-- A checked run: the body, the rewinding, the plain program, the comparison and the terminator. -/
theorem run_processed (hn : (b.map (·.id)).Nodup) (hpair : t.snapshots? c.slot = some pair)
    (ha : t.arch = c.arch) (hb : b.AppIsMachine) (hcalls : CallsOnRegisters b)
    (hbody : Passes b.body t t₁) :
    ∃ file, Passes b.body.app t (t.setRegisters file)
      ∧ (∀ m, c.arch.compare t₁.registers file = some m →
        (run (c.processed n b)).Ends t (.error (.mismatch m)) (c.atComparison t t₁ file))
      ∧ (c.arch.compare t₁.registers file = none →
        ∀ r v, (run b.terminator?.toList).Ends (c.atComparison t t₁ file) r v →
          (run (c.processed n b)).Ends t r v) := by
  obtain ⟨file, hplain⟩ := hbody.app fun e he => hb e (b.body_sublist.subset he)
  have hcalls' : CallsOnRegisters b.body := hcalls.subset b.body_sublist.subset
  -- neither run notices that the registers have been saved
  have hfirst : Passes b.body (c.saved t pair) ((c.saved t pair).setRegisters t₁.registers) :=
    (run_onRegisters hcalls').ends hbody rfl
  have hsecond : Passes b.body.app (c.atComparison t t₁ t.registers) (c.atComparison t t₁ file) :=
    (run_onRegisters (hcalls'.subset List.filter_sublist.subset)).ends hplain rfl
  rw [atComparison, atComparison, ← rewound_saved c t pair, ← rewound_saved c t pair] at hsecond
  obtain ⟨herror, hok⟩ := run_checkedBody (n := n) hn hpair hfirst
    (snapshots?_withSnapshots t c.slot _) ha hsecond
  rw [rewound_saved] at herror hok
  refine ⟨file, hplain, fun m hm => ?_, fun hnone r v hv => ?_⟩
  · rw [processed_eq]
    exact run_append_of_stops (herror m hm) nofun _
  · rw [processed_eq]
    refine (hok hnone).run_append ?_
    rwa [run_terminator?_renumber]

/-- A block that checks itself: instrumented run, rewinding, plain run, comparison. There is a
fault exactly if the two runs differ on a field of the schema; else the block ends as its program
does. -/
theorem execute_processed {d : Draft} (hc : c.Registered) (hx : c.arch = .x64) (hd : d.Numbered)
    (hb : d.block.AppIsMachine) (happ : d.block.app ≠ []) (helig : d.block.eligibility = .eligible)
    (hcalls : CallsOnRegisters d.block) (ht : t.arch = .x64)
    (hpair : t.snapshots? c.slot = some pair)
    (hbody : (execute d.block.body).Ends t (.ok (.exit .fallThrough)) t₁) :
    ∃ file, (execute d.block.body.app).Ends t (.ok (.exit .fallThrough)) (t.setRegisters file)
      ∧ ((∃ f, (execute (c.processBlock d).state.block t).result = .error f)
        ↔ Arch.x64.compare t₁.registers file ≠ none)
      ∧ (∀ m, Arch.x64.compare t₁.registers file = some m →
        (execute (c.processBlock d).state.block).Ends t (.error (.mismatch m))
          (c.atComparison t t₁ file)
        ∧ ∃ pre f post, Arch.x64.schema = pre ++ f :: post
          ∧ (∀ g ∈ pre, g.agrees .x64 t₁.registers file)
          ∧ f.agrees .x64 t₁.registers file = false
          ∧ f.mismatch .x64 t₁.registers file = m)
      ∧ (Arch.x64.compare t₁.registers file = none →
        ∃ ending, (execute (c.processBlock d).state.block).Ends t (.ok ending)
            (c.atComparison t t₁ file)
          ∧ (execute d.block.app).Ends t (.ok ending) (t.setRegisters file)
          ∧ (execute d.block.terminator?.toList).Ends (t.setRegisters file) (.ok ending)
            (t.setRegisters file)) := by
  rw [(processBlock_checked hc.fits hd helig happ).1]
  rw [execute_ends_iff ht] at hbody
  obtain ⟨file, hplain, herror, hok⟩ := run_processed (n := d.nextId) hd.nodup hpair
    (ht.trans hx.symm) hb hcalls hbody
  rw [hx] at herror hok
  obtain ⟨ending, hterm⟩ := run_terminator d.block
  have happ' : (run d.block.app).Ends t (.ok ending) (t.setRegisters file) := by
    rw [Block.app_body hd.nodup]
    exact hplain.run_append (hterm _)
  refine ⟨file, (execute_ends_iff ht).2 hplain, ⟨?_, ?_⟩, fun m hm => ⟨?_, ?_⟩, fun hnone => ?_⟩
  · rintro ⟨f, hf⟩ hnone
    have hend := (execute_ends_iff ht).2 (hok hnone _ _ (hterm _))
    rw [hend.1] at hf
    cases hf
  · intro hne
    obtain ⟨m, hm⟩ := Option.ne_none_iff_exists'.1 hne
    exact ⟨_, ((execute_ends_iff ht).2 (herror m hm)).1⟩
  · exact (execute_ends_iff ht).2 (herror m hm)
  · exact Arch.compare_eq_some_iff.1 hm
  · exact ⟨ending, (execute_ends_iff ht).2 (hok hnone _ _ (hterm _)),
      (execute_ends_iff ht).2 happ',
      (execute_ends_iff (t := t.setRegisters file) ht).2 (hterm _)⟩

end Checker

open Thread

/-- A thread that holds a pair in the first slot. -/
def Thread.subject : Thread := (Thread.new 1 .x64).withSnapshots 0 .zero

namespace Draft

theorem appIsMachine_mixed : mixed.block.AppIsMachine := by decide

theorem callsOnRegisters_mixed : CallsOnRegisters mixed.block := by
  simp [mixed, callsOnRegisters_cons, callsOnRegisters_nil, onRegisters_poke]

end Draft

theorem Checker.execute_processed_mixed :
    ∃ file, (execute Draft.mixed.block.body.app).Ends subject (.ok (.exit .fallThrough))
        (subject.setRegisters file)
      ∧ ((∃ f, (execute (first.processBlock .mixed).state.block subject).result = .error f)
        ↔ Arch.x64.compare (execute Draft.mixed.block.body subject).state.registers file
          ≠ none) := by
  obtain ⟨file, hplain, hfault, -⟩ := execute_processed registered_first rfl Draft.numbered_mixed
    Draft.appIsMachine_mixed (List.cons_ne_nil _ _) rfl Draft.callsOnRegisters_mixed
    (t := subject) rfl rfl ⟨rfl, rfl⟩
  exact ⟨file, hplain, hfault⟩

end Rerun
