import Rerun.Proofs.Clobbered
import Rerun.Proofs.Growing
import Rerun.Proofs.Lifetimes

/-!
# Trials of a program

A new thread runs a program that the clients of its host, a faulty tool perhaps and a checker, have
changed. What comes of it depends on the registers that the thread starts with, and neither on its
number nor on the identities of the entries; and if it is no mismatch, it does not depend on the
registers either (`exists_ending`).
-/

namespace Rerun

open Rerun.Action Thread

namespace Entry

variable {e e' : Entry}

theorem isTerminator_congr (h : e.content = e'.content) : e.isTerminator = e'.isTerminator := by
  rcases e with ⟨_, c, _, _⟩
  rcases e' with ⟨_, c', _, _⟩
  obtain rfl : c = c' := h
  rfl

theorem sideEffect?_congr (h : e.content = e'.content) : e.sideEffect? = e'.sideEffect? := by
  rcases e with ⟨_, c, _, _⟩
  rcases e' with ⟨_, c', _, _⟩
  obtain rfl : c = c' := h
  rfl

end Entry

namespace Block

variable {a a' b b' : Block} {x x' : Entry}

/-- What a block says, the identities of its entries left aside. -/
def text (b : Block) : List (Content × Bool) := b.map fun e => (e.content, e.isApp)

theorem text_append (a b : Block) : (a ++ b).text = a.text ++ b.text := List.map_append

theorem text_renumber (n : EntryId) (b : Block) : (b.renumber n).text = b.text :=
  map_renumber (fun _ _ => rfl) n b

theorem map_content_congr (h : b.text = b'.text) : b.map (·.content) = b'.map (·.content) := by
  simpa [text, Function.comp_def] using congrArg (List.map Prod.fst) h

theorem app_congr (h : b.text = b'.text) : b.app.text = b'.app.text := by
  have happ : ∀ b : Block, b.app.text = b.text.filter (·.2) := by
    intro b
    simp [text, app, List.filter_map, Function.comp_def]
  rw [happ, happ, h]

theorem eligible_congr (h : b.text = b'.text) :
    b.eligibility = .eligible ↔ b'.eligibility = .eligible := by
  have hmap : ∀ b : Block, b.map (·.sideEffect?)
      = (b.map (·.content)).map fun c => Entry.sideEffect? ⟨0, c, true, none⟩ := by
    intro b
    rw [List.map_map]
    exact List.map_congr_left fun e _ => Entry.sideEffect?_congr rfl
  have happ : b.app.map (·.sideEffect?) = b'.app.map (·.sideEffect?) := by
    rw [hmap, hmap, map_content_congr (app_congr h)]
  have hall : ∀ b : Block, (∀ e ∈ b.app, e.sideEffect? = none)
      ↔ ∀ s ∈ b.app.map (·.sideEffect?), s = none := by simp
  rw [eligibility_eq_eligible_iff, eligibility_eq_eligible_iff, hall, hall, happ]

/-- Which blocks a checker changes depends on what they say. -/
theorem checkable_congr (h : b.text = b'.text) :
    (b.eligibility = .eligible ∧ b.app ≠ []) ↔ b'.eligibility = .eligible ∧ b'.app ≠ [] := by
  have hnil : ∀ b : Block, b.app = [] ↔ b.app.text = [] := by simp [text]
  rw [eligible_congr h, Ne, Ne, hnil, hnil, app_congr h]

theorem terminator?_concat (hx : x.isApp) :
    terminator? (a ++ [x]) = if x.isTerminator then some x else none :=
  terminator?_of_lastApp? (by simp [lastApp?, hx])

theorem body_concat (hn : ((a ++ [x]).map (·.id)).Nodup) (hx : x.isApp) :
    body (a ++ [x]) = if x.isTerminator then a else a ++ [x] := by
  have hterm := terminator?_concat (a := a) hx
  split
  · next h =>
    rw [if_pos h] at hterm
    exact (body_append hn hterm).trans (List.append_nil a)
  · next h =>
    rw [if_neg h] at hterm
    exact body_of_terminator?_eq_none hterm

/-- A block of instructions, the last of which is one of the program. -/
structure Built (b : Block) : Prop where
  nodup : (b.map (·.id)).Nodup
  machine : ∀ e ∈ b, e.IsMachine
  last : ∃ a x, b = a ++ [x] ∧ x.isApp

theorem Built.split (hb : b.Built) : b = b.body ++ b.terminator?.toList := by
  obtain ⟨a, x, rfl, hx⟩ := hb.last
  rw [body_concat hb.nodup hx, terminator?_concat hx]
  split <;> simp

theorem Built.congr (hb : b.Built) (hb' : b'.Built) (h : b.text = b'.text) :
    b.body.text = b'.body.text
      ∧ b.terminator?.toList.map (·.content) = b'.terminator?.toList.map (·.content) := by
  obtain ⟨a, x, rfl, hx⟩ := hb.last
  obtain ⟨a', x', rfl, hx'⟩ := hb'.last
  rw [body_concat hb.nodup hx, body_concat hb'.nodup hx', terminator?_concat hx,
    terminator?_concat hx']
  have htext := h
  rw [text_append, text_append] at htext
  obtain ⟨ha, hlast⟩ := List.append_inj' htext rfl
  obtain ⟨hcontent, -⟩ := Prod.mk.inj (List.singleton_inj.1 hlast)
  rw [Entry.isTerminator_congr hcontent]
  split
  · exact ⟨ha, by simp [hcontent]⟩
  · exact ⟨h, rfl⟩

end Block

/-- What tools leave of a program, if there is one. -/
structure Draft.Laid (d : Draft) : Prop where
  numbered : d.Numbered
  built : d.block = [] ∨ d.block.Built

theorem Draft.Laid.machine {d : Draft} (hd : d.Laid) : ∀ e ∈ d.block, e.IsMachine := by
  rcases hd.built with hnil | hb
  · simp [hnil]
  · exact hb.machine

namespace Checker

variable {c : Checker} {b b' : Block} {d : Draft} {n n' : EntryId} {t : Thread}
  {file : RegisterFile} {ending : Ending}

theorem run_processed_congr (hb : b.Built) (hb' : b'.Built) (h : b.text = b'.text) :
    run (c.processed n b) = run (c.processed n' b') := by
  obtain ⟨hbody, hterm⟩ := hb.congr hb' h
  have hcopy := Block.map_content_congr (Block.app_congr hbody)
  have hmap := Block.map_content_congr hbody
  have hprogram : ∀ {b : Block}, b.Built → ∀ m,
      (b.renumber m).body.app.map (·.content) = b.body.app.map (·.content) :=
    fun hb m => Block.map_app_body_renumber (fun _ _ => rfl) m hb.nodup
  have hlast : ∀ (b : Block) m,
      (b.renumber m).terminator?.toList.map (·.content) = b.terminator?.toList.map (·.content) :=
    fun b m => Block.map_terminator?_renumber (fun _ _ => rfl) m b
  refine run_congr ?_
  simp only [processed, List.map_cons, List.map_append, hprogram hb, hprogram hb', hlast, hcopy,
    hmap, hterm]
  rfl

/-- With a pair for the checker, threads with these registers all run the block to the same
result. -/
def Gives (c : Checker) (b : Block) (file : RegisterFile) (r : Except Fault Ending) : Prop :=
  ∀ t pair, t.arch = .x64 → t.registers = file → t.snapshots? c.slot = some pair →
    (run b t).result = r

theorem gives_plain (hend : ∀ t, ∃ file, (run b).Ends t (.ok ending) (t.setRegisters file))
    (file : RegisterFile) : c.Gives b file (.ok ending) := by
  intro t _ _ _ _
  obtain ⟨_, hends⟩ := hend t
  exact hends.1

/-- A block that checks itself ends as it would unchecked, or with a mismatch. -/
theorem exists_gives_processed (hx : c.arch = .x64) (hb : b.Built)
    (hend : ∀ t, ∃ file, (run b).Ends t (.ok ending) (t.setRegisters file))
    (file : RegisterFile) :
    ∃ r, (r = .ok ending ∨ ∃ m, r = .error (.mismatch m)) ∧ c.Gives (c.processed n b) file r := by
  have hbody : ∀ e ∈ b.body, e.IsMachine := fun e he => hb.machine e (b.body_sublist.subset he)
  have hcalls := callsOnRegisters_of_callFree (Block.callFree_of_machine hb.machine)
  have hcalls' : CallsOnRegisters b.body := hcalls.subset b.body_sublist.subset
  -- any thread will do to find out how the body ends
  obtain ⟨stop, file₁, h₀⟩ :=
    run_ends_of_machine hbody ((Thread.new 0 .x64).setRegisters file)
  have hfirst : ∀ t, t.registers = file → (run b.body).Ends t (.ok stop) (t.setRegisters file₁) :=
    fun t ht => (run_onRegisters hcalls').ends h₀ ht
  by_cases hstop : stop = .exit .fallThrough
  · subst hstop
    -- the copy runs from what was saved, so it leaves the same registers on every thread
    obtain ⟨file₂, hplain₀⟩ := Passes.app h₀ fun e he _ => hbody e he
    have hplain : ∀ t, t.registers = file → Passes b.body.app t (t.setRegisters file₂) :=
      fun t ht => (run_onRegisters (hcalls'.subset List.filter_sublist.subset)).ends hplain₀ ht
    obtain ⟨last, hterm⟩ := run_terminator b
    obtain rfl : last = ending := by
      obtain ⟨_, hends⟩ := hend ((Thread.new 0 .x64).setRegisters file)
      rw [hb.split] at hends
      have happ := Passes.run_append (hfirst ((Thread.new 0 .x64).setRegisters file) rfl) (hterm _)
      exact Except.ok.inj (Ends.unique happ hends).1
    have hrun : ∀ t pair, t.arch = .x64 → t.registers = file → t.snapshots? c.slot = some pair →
        (∀ m, c.arch.compare file₁ file₂ = some m →
          (run (c.processed n b) t).result = .error (.mismatch m))
        ∧ (c.arch.compare file₁ file₂ = none → (run (c.processed n b) t).result = .ok last) := by
      intro t pair ha ht hpair
      obtain ⟨file', hplain', herror, hok⟩ := run_processed (n := n) hb.nodup hpair
        (ha.trans hx.symm) (fun e he _ => hb.machine e he) hcalls (hfirst t ht)
      obtain rfl : file' = file₂ :=
        congrArg Thread.registers (Ends.unique hplain' (hplain t ht)).2
      exact ⟨fun m hm => (herror m hm).1, fun hnone => (hok hnone _ _ (hterm _)).1⟩
    rcases hm : c.arch.compare file₁ file₂ with _ | m
    · exact ⟨_, .inl rfl, fun t pair ha ht hpair => (hrun t pair ha ht hpair).2 hm⟩
    · exact ⟨_, .inr ⟨m, rfl⟩, fun t pair ha ht hpair => (hrun t pair ha ht hpair).1 m hm⟩
  · have hne : (.ok stop : Except Fault Ending) ≠ .ok (.exit .fallThrough) := by simpa using hstop
    obtain rfl : stop = ending := by
      obtain ⟨_, hends⟩ := hend ((Thread.new 0 .x64).setRegisters file)
      rw [hb.split] at hends
      exact Except.ok.inj (Ends.unique (run_append_of_stops (hfirst _ rfl) hne _) hends).1
    -- the first copy stops the thread before anything is compared
    exact ⟨_, .inl rfl, fun t pair _ ht hpair =>
      (run_processed_of_stops hpair hcalls (hfirst t ht) hne).1⟩

/-- A block that has been through a checker is what it was, or checks itself. -/
theorem processBlock_cases (hm : c.markers.Fits) (hd : d.Numbered) :
    ∃ outcome, (c.processBlock d).result = .ok outcome
      ∧ (c.processBlock d).state.block
        = if d.block.eligibility = .eligible ∧ d.block.app ≠ [] then c.processed d.nextId d.block
          else d.block := by
  cases h : d.block.eligibility with
  | sideEffect id f =>
    rw [processBlock_sideEffect h]
    exact ⟨_, rfl, by simp⟩
  | eligible =>
    by_cases happ : d.block.app = []
    · rw [processBlock_empty h happ]
      exact ⟨_, rfl, by simp [happ]⟩
    · rw [(processBlock_checked hm hd h happ).1]
      exact ⟨_, rfl, by simp [happ]⟩

theorem callsCheckers_of_machine {cs : List Checker} (hb : ∀ e ∈ b, e.IsMachine) :
    b.CallsCheckers cs := by
  intro e he call hcall
  obtain ⟨i, hi⟩ := hb e he
  cases hi.symm.trans hcall

/-- The calls that a checker puts into a block are its own. -/
theorem callsCheckers_processed (hb : b.Built) : (c.processed n b).CallsCheckers [c] := by
  have hcall : ∀ (call : Call) (n : EntryId), call.OfCheckers [c] →
      ∀ call', (Draft.called call n).content = .call call' → call'.OfCheckers [c] := by
    rintro call n h _ ⟨⟩
    exact h
  have hmark : ∀ (kind : MarkerKind) (n : EntryId) (call : Call),
      (c.markers.entry kind n).content = .call call → call.OfCheckers [c] := by
    rintro kind n call ⟨⟩
  have hbody : b.body.CallsCheckers [c] :=
    callsCheckers_of_machine fun e he => hb.machine e (b.body_sublist.subset he)
  have hcopied : ∀ e ∈ b.renumber n, e.IsMachine := by
    intro e he
    obtain ⟨x, hx, i, rfl⟩ := Block.exists_of_mem_renumber he
    exact hb.machine x hx
  have hcopy : (b.renumber n).body.app.CallsCheckers [c] := callsCheckers_of_machine fun e he =>
    hcopied e ((b.renumber n).body_sublist.subset (Block.mem_app.1 he).1)
  have hterm : Block.CallsCheckers [c] (b.renumber n).terminator?.toList :=
    callsCheckers_of_machine fun e he => hcopied e ((b.renumber n).toList_terminator?_subset he)
  have hmem : c ∈ [c] := List.mem_singleton_self c
  simp only [Block.CallsCheckers, processed, List.forall_mem_cons, List.forall_mem_append]
  exact ⟨hcall _ _ ⟨c, hmem, .inl ⟨false, rfl⟩⟩, hmark _ _, hbody,
    hcall _ _ ⟨c, hmem, .inl ⟨true, rfl⟩⟩, hcall _ _ ⟨c, hmem, .inr (.inl rfl)⟩, hmark _ _,
    hcopy, hcall _ _ ⟨c, hmem, .inr (.inr rfl)⟩, hmark _ _, hterm⟩

/-- What a block that has been through a checker comes to depends on what it says and on the
registers; and but for mismatches it does not depend on these. -/
theorem exists_gives (hc : c.Registered) (hx : c.arch = .x64) {d : Draft} (hd : d.Laid) :
    ∃ ending, ∀ file, ∃ r, (r = .ok ending ∨ ∃ m, r = .error (.mismatch m))
      ∧ (d.block.AppOnly → r = .ok ending)
      ∧ ∀ d' : Draft, d'.Laid → d'.block.text = d.block.text →
        (c.processBlock d').state.block.CallsCheckers [c]
        ∧ c.Gives (c.processBlock d').state.block file r := by
  obtain ⟨ending, hend⟩ := exists_ending_of_callFree (Block.callFree_of_machine hd.machine)
  refine ⟨ending, fun file => ?_⟩
  -- what a block says decides whether the checker changes it
  by_cases hcheck : d.block.eligibility = .eligible ∧ d.block.app ≠ []
  · have hb : d.block.Built :=
      hd.built.resolve_left fun hnil => hcheck.2 (by simp [hnil, Block.app])
    obtain ⟨r, hr, hgives⟩ := exists_gives_processed (n := 0) hx hb hend file
    refine ⟨r, hr, fun happ => ?_, fun d' hd' htext => ?_⟩
    -- without a tool both copies run the same instructions, so nothing differs
    · let t := ((Thread.new 0 .x64).withSnapshots c.slot .zero).setRegisters file
      have hpair : t.snapshots? c.slot = some .zero := snapshots?_withSnapshots _ _ _
      obtain ⟨e, u, hrun, hplain, -⟩ := mirrors_processed (n := 0) hx hb.nodup happ rfl hpair
      obtain ⟨_, hends⟩ := hend t
      rw [← hgives t .zero rfl rfl hpair, hrun.1, (Ends.unique hplain hends).1]
    · have hcheck' := (Block.checkable_congr htext).2 hcheck
      have hb' : d'.block.Built :=
        hd'.built.resolve_left fun hnil => hcheck'.2 (by simp [hnil, Block.app])
      obtain ⟨-, -, hblock⟩ := processBlock_cases hc.fits hd'.numbered
      rw [if_pos hcheck'] at hblock
      rw [hblock]
      refine ⟨callsCheckers_processed hb', fun t pair => ?_⟩
      rw [run_processed_congr hb' hb htext]
      exact hgives t pair
  · refine ⟨.ok ending, .inl rfl, fun _ => rfl, fun d' hd' htext => ?_⟩
    obtain ⟨-, -, hblock⟩ := processBlock_cases hc.fits hd'.numbered
    rw [if_neg (mt (Block.checkable_congr htext).1 hcheck)] at hblock
    rw [hblock]
    refine ⟨callsCheckers_of_machine hd'.machine, fun t pair => ?_⟩
    rw [run_congr (Block.map_content_congr htext)]
    exact gives_plain hend file t pair

end Checker

/-! ## Programs on a host -/

namespace Draft

/-- A new block of a program. -/
def ofProgram (n : EntryId) (is : List X64.Instruction) : Draft :=
  ⟨(Block.program is).renumber n, n + is.length⟩

theorem numbered_ofProgram (n : EntryId) (is : List X64.Instruction) :
    (ofProgram n is).Numbered := by
  constructor
  · rw [ofProgram, Block.map_id_renumber]
    exact List.nodup_range'
  · intro e he
    have hlt := (Block.mem_renumber he).2
    rw [Block.program, List.length_map] at hlt
    exact hlt

theorem appOnly_ofProgram (n : EntryId) (is : List X64.Instruction) :
    (ofProgram n is).block.AppOnly := by
  intro e he
  have hmem : (e.content, e.isApp) ∈ ((Block.program is).renumber n).text := List.mem_map_of_mem he
  rw [Block.text_renumber] at hmem
  simp only [Block.text, Block.program, List.map_map, List.mem_map] at hmem
  obtain ⟨i, -, hi⟩ := hmem
  obtain ⟨hcontent, happ⟩ := Prod.mk.inj hi
  exact ⟨happ.symm, i, hcontent.symm⟩

theorem ofProgram_concat (n : EntryId) (is : List X64.Instruction) (i : X64.Instruction) :
    ofProgram n (is ++ [i]) = ⟨(ofProgram n is).block ++ [⟨n + is.length, .machine i, true, none⟩],
      n + is.length + 1⟩ := by
  simp [ofProgram, Block.program, Block.renumber_append, Block.renumber, Nat.add_assoc]

theorem laid_ofProgram (n : EntryId) (is : List X64.Instruction) : (ofProgram n is).Laid := by
  refine ⟨numbered_ofProgram n is, ?_⟩
  rcases List.eq_nil_or_concat is with rfl | ⟨pre, i, rfl⟩
  · exact .inl rfl
  · refine .inr ⟨(numbered_ofProgram n _).nodup, (appOnly_ofProgram n _).isMachine, ?_⟩
    rw [List.concat_eq_append, ofProgram_concat]
    exact ⟨_, _, rfl, rfl⟩

end Draft

namespace Host

variable {tool : Option Clobber} {is : List X64.Instruction} {t : Thread} {n : EntryId} {k : Nat}
  {file : RegisterFile} {r r' : Except Fault Ending} {h : Host}

/-- A new host, with a faulty tool if there is one. -/
def withTool (tool : Option Clobber) : Host :=
  match tool with
  | none => .new
  | some tool => (Host.new.addClient tool.registration).2

/-- A host with a checker, and with a faulty tool if there is one. -/
def prepared (tool : Option Clobber) : Host :=
  ((Activation.new (.new .x64)).activate (withTool tool)).state

theorem register_withTool (tool : Option Clobber) :
    (Checker.register (.new .x64)).Ends (withTool tool) (.ok (.ok Checker.first))
      (Checker.first.settle (withTool tool)) := by
  cases tool with
  | none => exact Checker.first_ends
  | some tool =>
    have hfree : Host.new.freeSlot? = some 0 := by decide
    have hnotes : Host.new.HasNotes (BitVec.ofNat 64 Markers.count) := by
      unfold HasNotes
      decide
    refine Checker.register_ends_ok hfree hnotes ?_
    show ¬("clobber" == "statecmp" || false) = true
    decide

theorem prepared_eq (tool : Option Clobber) :
    prepared tool = Checker.first.settle (withTool tool) :=
  (Activation.activate_ends_ok (a := .new (.new .x64)) rfl (register_withTool tool)).2

theorem activate_withTool (tool : Option Clobber) :
    (Activation.new (.new .x64)).activate.Ends (withTool tool)
      (.ok (.success, ⟨.new .x64, 1, some Checker.first⟩)) (prepared tool) := by
  rw [prepared_eq]
  exact Activation.activate_ends_ok rfl (register_withTool tool)

theorem clients_prepared (tool : Option Clobber) :
    (prepared tool).clients
      = (tool.map Clobber.registration).toList ++ [Checker.first.registration] := by
  rw [prepared_eq]
  cases tool <;> rfl

theorem manned_prepared (tool : Option Clobber) :
    Manned (prepared tool).clients [Checker.first] := by
  have hfirst : Manned [Checker.first.registration] [Checker.first] :=
    .checker _ List.not_mem_nil .nil
  rw [clients_prepared]
  cases tool with
  | none => exact hfirst
  | some tool => exact .other _ tool.quiet hfirst

/-- What the tool leaves of a program says the same under all identities. -/
theorem exists_laid (tool : Option Clobber) (is : List X64.Instruction) :
    ∃ d₀ : Draft, d₀.Laid ∧ (tool = none → d₀.block.AppOnly) ∧ ∀ n, ∃ d : Draft, d.Laid
      ∧ d.block.text = d₀.block.text
      ∧ ∀ {t rest res d'}, (tellBuilt t false true rest).Ends d res d' →
        (tellBuilt t false true ((tool.map Clobber.registration).toList ++ rest)).Ends
          (.ofProgram n is) res d' := by
  have htext : ∀ n, (Draft.ofProgram n is).block.text = (Draft.ofProgram 0 is).block.text := by
    intro n
    rw [Draft.ofProgram, Draft.ofProgram, Block.text_renumber, Block.text_renumber]
  cases tool with
  | none =>
    exact ⟨.ofProgram 0 is, Draft.laid_ofProgram 0 is, fun _ => Draft.appOnly_ofProgram 0 is,
      fun n => ⟨.ofProgram n is, Draft.laid_ofProgram n is, htext n, fun h => h⟩⟩
  | some tool =>
    rcases List.eq_nil_or_concat is with rfl | ⟨pre, i, rfl⟩
    · refine ⟨.ofProgram 0 [], Draft.laid_ofProgram 0 [], nofun, fun n => ?_⟩
      refine ⟨.ofProgram n [], Draft.laid_ofProgram n [], rfl, fun {t _ _ _} hrest => ?_⟩
      have hbuilt : (tool.client.built t false true).Ends (.ofProgram n []) (.ok ())
          (.ofProgram n []) := ⟨rfl, rfl⟩
      exact tellBuilt_cons hbuilt hrest
    · rw [List.concat_eq_append] at htext ⊢
      -- the instruction of the tool takes the next identity
      let last : EntryId → Entry := fun n => ⟨n + pre.length, .machine i, true, none⟩
      let d : EntryId → Draft := fun n => ⟨(Draft.ofProgram n pre).block
        ++ [tool.entry (n + pre.length + 1), last n], n + pre.length + 1 + 1⟩
      have hlaid : ∀ n, (d n).Laid := by
        intro n
        have hnumbered := Draft.numbered_ofProgram n (pre ++ [i])
        rw [Draft.ofProgram_concat] at hnumbered
        have hn : (d n).Numbered := hnumbered.insert rfl
        refine ⟨hn, .inr ⟨hn.nodup, ?_, _, last n, (List.append_assoc _ [_] [_]).symm, rfl⟩⟩
        refine List.forall_mem_append.2 ⟨(Draft.appOnly_ofProgram n pre).isMachine, ?_⟩
        simp [Clobber.entry, last, Entry.IsMachine]
      refine ⟨d 0, hlaid 0, nofun, fun n => ⟨d n, hlaid n, ?_, fun {t _ _ _} hrest => ?_⟩⟩
      · simp only [d, last, Draft.ofProgram, Block.text_append, Block.text_renumber]
        rfl
      · have hnumbered := Draft.numbered_ofProgram n (pre ++ [i])
        rw [Draft.ofProgram_concat] at hnumbered ⊢
        exact tellBuilt_cons (tool.built_append hnumbered.nodup rfl t false true) hrest

/-- Lets the clients change a new block of a program. -/
def build (h : Host) (t : Thread) (is : List X64.Instruction) : Action Draft Unit := do
  Draft.setBlock (← Draft.appAll is)
  h.process t false true

/-- A new thread of the host runs a program from these registers, after the clients have changed it,
to this result, whatever the thread's number and the first identity are. -/
def Trial (h : Host) (is : List X64.Instruction) (file : RegisterFile)
    (r : Except Fault Ending) : Prop :=
  ∀ k n, ∃ t h' d, (spawn .x64).Ends { h with nextThread := k } (.ok t) h'
    ∧ (h'.build (t.setRegisters file) is).Ends ⟨[], n⟩ (.ok ()) d
    ∧ (execute d.block (t.setRegisters file)).result = r

theorem Trial.unique (hr : h.Trial is file r) (hr' : h.Trial is file r') : r = r' := by
  obtain ⟨t, h₁, d, hspawn, hbuild, rfl⟩ := hr 0 0
  obtain ⟨t', h₁', d', hspawn', hbuild', rfl⟩ := hr' 0 0
  obtain ⟨ht, rfl⟩ := Ends.unique hspawn hspawn'
  obtain rfl := Except.ok.inj ht
  rw [(Ends.unique hbuild hbuild').2]

/-- A prepared host on which the next thread has the number `k`. -/
def preparedFor (tool : Option Clobber) (k : Nat) : Host := { prepared tool with nextThread := k }

/-- A thread that has just started on a prepared host. -/
def entrant (k : Nat) : Thread := (Thread.new k .x64).withSnapshots Checker.first.slot .zero

theorem spawn_prepared (tool : Option Clobber) (k : Nat) :
    (spawn .x64).Ends (preparedFor tool k) (.ok (entrant k)) (preparedFor tool (k + 1)) := by
  rw [preparedFor, preparedFor, prepared_eq]
  cases tool <;> exact ⟨rfl, rfl⟩

theorem snapshots?_entrant (k : Nat) : (entrant k).snapshots? Checker.first.slot = some .zero :=
  snapshots?_withSnapshots _ _ _

theorem holds_entrant (k : Nat) : Holds [Checker.first.slot] (entrant k) := by
  refine (holds_new k .x64).cons ?_ .zero
  unfold Storable
  decide

theorem build_prepared {d : Draft} {outcome : BlockOutcome}
    (htools : ∀ {t rest res d'}, (tellBuilt t false true rest).Ends d res d' →
      (tellBuilt t false true ((tool.map Clobber.registration).toList ++ rest)).Ends
        (.ofProgram n is) res d')
    (hp : (Checker.first.processBlock d).result = .ok outcome) (t : Thread) :
    ((preparedFor tool k).build t is).Ends ⟨[], n⟩ (.ok ())
      (Checker.first.processBlock d).state := by
  have hentries : (Draft.appAll is).Ends ⟨[], n⟩ (.ok ((Block.program is).renumber n))
      ⟨[], n + is.length⟩ := ends_of_eq (Draft.appAll_apply ..)
  refine hentries.bind ((ends_modify _ _).bind ?_)
  show (tellBuilt t false true (prepared tool).clients).Ends (.ofProgram n is) _ _
  rw [clients_prepared]
  exact htools (tellBuilt_cons (Checker.built_ends hp _ _ _) (ends_pure _ _))

/-- A trial on a prepared host, until the thread ends. The thread has the number `k`, and the
identities begin at `n`. -/
def Tried (tool : Option Clobber) (is : List X64.Instruction) (file : RegisterFile)
    (r : Except Fault Ending) (k n : Nat) : Prop :=
  ∃ t d t' t'', (spawn .x64).Ends (preparedFor tool k) (.ok t) (preparedFor tool (k + 1))
    ∧ ((preparedFor tool (k + 1)).build (t.setRegisters file) is).Ends ⟨[], n⟩ (.ok ()) d
    ∧ (execute d.block).Ends (t.setRegisters file) r t'
    ∧ (preparedFor tool (k + 1)).exit.Ends t' (.ok ()) t''

/-- Trials differ in the mismatches that they find, and in nothing else. -/
theorem exists_ending (tool : Option Clobber) (is : List X64.Instruction) :
    ∃ ending, ∀ file, ∃ r, (r = .ok ending ∨ ∃ m, r = .error (.mismatch m))
      ∧ (tool = none → r = .ok ending) ∧ ∀ k n, Tried tool is file r k n := by
  obtain ⟨d₀, hlaid₀, honly, hlaid⟩ := exists_laid tool is
  obtain ⟨ending, hgives⟩ := Checker.exists_gives Checker.registered_first rfl hlaid₀
  refine ⟨ending, fun file => ?_⟩
  obtain ⟨r, hr, hplain, hall⟩ := hgives file
  refine ⟨r, hr, fun htool => hplain (honly htool), fun k n => ?_⟩
  obtain ⟨d, hd, htext, htools⟩ := hlaid n
  obtain ⟨hcalls, hresult⟩ := hall d hd htext
  obtain ⟨outcome, houtcome, -⟩ :=
    Checker.processBlock_cases (c := .first) Checker.registered_first.fits hd.numbered
  obtain ⟨hkept, -⟩ := careful_execute hcalls _ ((holds_entrant k).setRegisters file)
  obtain ⟨t'', hexit, -⟩ :=
    Manned.exit_ends (h := preparedFor tool (k + 1)) (manned_prepared tool) hkept
  refine ⟨_, _, _, t'', spawn_prepared tool k, build_prepared htools houtcome _, ⟨?_, rfl⟩, hexit⟩
  rw [execute_apply rfl]
  exact hresult _ .zero rfl rfl (snapshots?_entrant k)

theorem trial_of_tried (h : ∀ k n, Tried tool is file r k n) : (prepared tool).Trial is file r := by
  intro k n
  obtain ⟨t, d, _, _, hspawn, hbuild, hrun, -⟩ := h k n
  exact ⟨t, _, d, hspawn, hbuild, hrun.1⟩

end Host

end Rerun
