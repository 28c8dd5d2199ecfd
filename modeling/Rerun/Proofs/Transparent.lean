import Mathlib.Logic.Relation
import Rerun.Proofs.Checked
import Rerun.Proofs.Clients

/-!
# Transparency

A session is a host with one checker, the threads started on it, and the blocks that were built
for them. Threads run the blocks in any order, from any registers. Whatever has happened before,
each run of a block that has been through the checker ends as a run of the block as it was built
(`transparent`): the snapshots that earlier runs left behind make no difference, because a run
reads only those that it has taken itself.
-/

namespace Rerun

open Rerun.Action Thread

namespace Block

/-- A block that no tool has touched. -/
def AppOnly (b : Block) : Prop := ∀ e ∈ b, e.isApp ∧ e.IsMachine

instance (b : Block) : Decidable b.AppOnly :=
  inferInstanceAs (Decidable (∀ e ∈ b, e.isApp ∧ e.IsMachine))

variable {b : Block}

theorem AppOnly.app_eq (h : b.AppOnly) : b.app = b := by
  rw [app, List.filter_eq_self]
  exact fun e he => (h e he).1

theorem AppOnly.isMachine (h : b.AppOnly) : ∀ e ∈ b, e.IsMachine :=
  fun e he => (h e he).2

theorem AppOnly.body (h : b.AppOnly) : b.body.AppOnly :=
  fun e he => h e (b.body_sublist.subset he)

/-- Where no tool has put anything behind it, the terminator stands at the end. -/
theorem AppOnly.split (h : b.AppOnly) (hn : (b.map (·.id)).Nodup) :
    b = b.body ++ b.terminator?.toList := by
  have happ := app_body hn
  rwa [h.app_eq, h.body.app_eq] at happ

theorem AppOnly.callsOnRegisters (h : b.AppOnly) : CallsOnRegisters b := by
  intro e he c hc
  obtain ⟨i, hi⟩ := (h e he).2
  rw [hi] at hc
  cases hc

end Block

namespace Checker

variable {c : Checker} {d : Draft} {t : Thread} {pair : Snapshots}

/-- A thread keeps a pair in the slot, and the run of the processed block does what the run of the
block does. -/
def Mirrors (c : Checker) (b b' : Block) (t : Thread) : Prop :=
  ∃ ending u, (run b').Ends t (.ok ending) u
    ∧ (run b).Ends t (.ok ending) (t.setRegisters u.registers)
    ∧ u.arch = t.arch ∧ ∃ pair, u.snapshots? c.slot = some pair

theorem mirrors_self {b : Block} (hb : b.AppOnly) (hpair : t.snapshots? c.slot = some pair) :
    c.Mirrors b b t := by
  obtain ⟨ending, file, h⟩ := run_ends_of_machine hb.isMachine t
  exact ⟨ending, _, h, h, rfl, pair, hpair⟩

theorem mirrors_processed {b : Block} {n : EntryId} (hx : c.arch = .x64)
    (hn : (b.map (·.id)).Nodup) (hb : b.AppOnly) (ht : t.arch = .x64)
    (hpair : t.snapshots? c.slot = some pair) : c.Mirrors b (c.processed n b) t := by
  have hcalls := hb.callsOnRegisters
  have hsplit := hb.split hn
  obtain ⟨ending, file, hbody⟩ := run_ends_of_machine hb.body.isMachine t
  by_cases he : ending = .exit .fallThrough
  · subst he
    obtain ⟨file', hplain, -, hok⟩ := run_processed (n := n) hn hpair (ht.trans hx.symm)
      (fun e he _ => hb.isMachine e he) hcalls hbody
    rw [hb.body.app_eq] at hplain
    obtain rfl : file' = file := congrArg Thread.registers (Ends.unique hplain hbody).2
    obtain ⟨ending, hterm⟩ := run_terminator b
    have hrun : (run b).Ends t (.ok ending) (t.setRegisters file') := by
      rw [hsplit]
      exact hplain.run_append (hterm _)
    refine ⟨ending, _, hok (Arch.compare_self _ _) _ _ (hterm _), hrun, rfl, ?_⟩
    exact ⟨_, snapshots?_withSnapshots t c.slot _⟩
  · have hrun : (run b).Ends t (.ok ending) (t.setRegisters file) := by
      rw [hsplit]
      exact run_append_of_stops hbody (by simpa using he) _
    refine ⟨ending, _, run_processed_of_stops hpair hcalls hbody (by simpa using he), hrun, rfl, ?_⟩
    exact ⟨_, snapshots?_withSnapshots t c.slot _⟩

/-- What a checker does to a block of the program alone, it does without a fault and without a trace
in any run. -/
theorem mirrors_processBlock (hc : c.Registered) (hx : c.arch = .x64) (hd : d.Numbered)
    (hb : d.block.AppOnly) :
    (∃ outcome, (c.processBlock d).result = .ok outcome)
      ∧ ∀ t pair, t.arch = .x64 → t.snapshots? c.slot = some pair →
        c.Mirrors d.block (c.processBlock d).state.block t := by
  cases h : d.block.eligibility with
  | sideEffect id f =>
    rw [processBlock_sideEffect h]
    exact ⟨⟨_, rfl⟩, fun t pair _ hpair => mirrors_self hb hpair⟩
  | eligible =>
    by_cases happ : d.block.app = []
    · rw [processBlock_empty h happ]
      exact ⟨⟨_, rfl⟩, fun t pair _ hpair => mirrors_self hb hpair⟩
    · rw [(processBlock_checked hc.fits hd h happ).1]
      exact ⟨⟨_, rfl⟩, fun t pair ht hpair => mirrors_processed hx hd.nodup hb ht hpair⟩

end Checker

/-- A draft with an increment and a return. -/
def Draft.counting : Draft where
  block := [⟨0, .machine (.increment 0), true, none⟩, ⟨1, .machine .ret, true, none⟩]
  nextId := 2

/-! ## Sessions -/

/-- A host, the threads started on it, and the blocks built for them, each as it was built and as
the host's clients have left it. -/
structure Session where
  host : Host
  threads : List Thread
  blocks : List (Block × Block)

namespace Session

variable {s s' : Session} {c : Checker}

/-- What can happen next. -/
inductive Step : Session → Session → Prop
  /-- A thread starts. -/
  | spawn {s : Session} {t : Thread} {h : Host}
      (started : (Host.spawn .x64).Ends s.host (.ok t) h) :
      Step s { s with host := h, threads := t :: s.threads }
  /-- A block of the program alone is built for a thread. -/
  | build {s : Session} {t : Thread} {forTrace rebuilding : Bool} {d d' : Draft}
      {r : Except Fault Unit} (numbered : d.Numbered) (plain : d.block.AppOnly)
      (built : (s.host.process t forTrace rebuilding).Ends d r d') :
      Step s { s with blocks := (d.block, d'.block) :: s.blocks }
  /-- A thread runs a block from any registers, to whatever end. -/
  | execute {s : Session} {before after : List Thread} {t t' : Thread} {p : Block × Block}
      {file : RegisterFile} {r : Except Fault Ending} (threads : s.threads = before ++ t :: after)
      (member : p ∈ s.blocks) (ran : (execute p.2).Ends (t.setRegisters file) r t') :
      Step s { s with threads := before ++ t' :: after }
  /-- The host does something else and keeps its clients. -/
  | other {s : Session} {h : Host} (clients : h.clients = s.host.clients) :
      Step s { s with host := h }

/-- The checker is the only client, every thread keeps a pair for it, and every block is what it
made of the block as built. -/
structure Inv (c : Checker) (s : Session) : Prop where
  clients : s.host.clients = [c.registration]
  threads : ∀ t ∈ s.threads, t.arch = .x64 ∧ ∃ pair, t.snapshots? c.slot = some pair
  blocks : ∀ p ∈ s.blocks, ∃ d, d.Numbered ∧ d.block.AppOnly ∧ p.1 = d.block
    ∧ p.2 = (c.processBlock d).state.block

/-- A thread that has just started holds a pair. -/
theorem spawn_ends {h h' : Host} {t : Thread} (hclients : h.clients = [c.registration])
    (hs : (Host.spawn .x64).Ends h (.ok t) h') :
    t = (Thread.new h.nextThread .x64).withSnapshots c.slot .zero ∧ h'.clients = h.clients := by
  obtain ⟨htell, hkept⟩ := Host.spawn_ends hs
  have hone : h.clients = [c].map Checker.registration := hclients
  rw [hone] at htell
  exact ⟨Checker.tellStarted_registrations htell, hkept⟩

theorem process_ends {h : Host} (hclients : h.clients = [c.registration]) {t : Thread}
    {forTrace rebuilding : Bool} {d : Draft} {outcome : BlockOutcome}
    (hp : (c.processBlock d).result = .ok outcome) :
    (h.process t forTrace rebuilding).Ends d (.ok ()) (c.processBlock d).state := by
  rw [Host.process, hclients]
  exact Host.tellBuilt_cons (Checker.built_ends hp t forTrace rebuilding) (ends_pure _ _)

theorem Inv.step (hc : c.Registered) (hx : c.arch = .x64) (hs : Inv c s) (h : Step s s') :
    Inv c s' := by
  cases h with
  | spawn started =>
    obtain ⟨rfl, hclients⟩ := spawn_ends hs.clients started
    refine ⟨hclients.trans hs.clients, ?_, hs.blocks⟩
    rintro t (_ | ⟨_, ht⟩)
    · exact ⟨rfl, _, snapshots?_withSnapshots _ _ _⟩
    · exact hs.threads t ht
  | build numbered plain built =>
    rename_i t forTrace rebuilding d d' r
    obtain ⟨⟨outcome, ho⟩, -⟩ := c.mirrors_processBlock hc hx numbered plain
    obtain ⟨-, rfl⟩ := Ends.unique built (process_ends hs.clients ho)
    refine ⟨hs.clients, hs.threads, ?_⟩
    rintro p (_ | ⟨_, hp⟩)
    · exact ⟨d, numbered, plain, rfl, rfl⟩
    · exact hs.blocks p hp
  | execute threads member ran =>
    rename_i before after t t' p file r
    obtain ⟨ht, pair, hpair⟩ := hs.threads t (by simp [threads])
    obtain ⟨d, hd, hplain, -, heq⟩ := hs.blocks p member
    obtain ⟨ending, u, hrun, -, harch, hu⟩ :=
      (c.mirrors_processBlock hc hx hd hplain).2 (t.setRegisters file) pair ht hpair
    rw [heq, execute_ends_iff (t := t.setRegisters file) ht] at ran
    obtain ⟨-, rfl⟩ := Ends.unique ran hrun
    refine ⟨hs.clients, ?_, hs.blocks⟩
    intro v hv
    rcases List.mem_append.1 hv with hv | hv
    · exact hs.threads v (by simp [threads, hv])
    rcases List.mem_cons.1 hv with rfl | hv
    · exact ⟨harch.trans ht, hu⟩
    · exact hs.threads v (by simp [threads, hv])
  | other clients => exact ⟨clients.trans hs.clients, hs.threads, hs.blocks⟩

/-- The session that begins when a checker has just been set up. -/
def start (h : Host) : Session := ⟨h, [], []⟩

theorem Inv.reachable {h : Host} (hc : c.Registered) (hx : c.arch = .x64)
    (hclients : h.clients = [c.registration]) (hrun : Relation.ReflTransGen Step (start h) s) :
    Inv c s := by
  induction hrun with
  | refl => exact ⟨hclients, nofun, nofun⟩
  | tail _ hstep ih => exact ih.step hc hx hstep

/-- In every session of one checker, building a block of the program alone never ends with a fault,
and each run of a block that was built, by any thread and from any registers, ends without a fault
as a run of the block from before it was processed, and with the same registers. -/
theorem transparent {a a' : Activation} {h₀ h : Host} (hx : a.config.arch = .x64)
    (hclients : h₀.clients = []) (hact : a.activate.Ends h₀ (.ok (.success, a')) h)
    (hrun : Relation.ReflTransGen Step (start h) s) :
    (∀ t forTrace rebuilding d, d.Numbered → d.block.AppOnly →
      (s.host.process t forTrace rebuilding d).result = .ok ())
    ∧ ∀ t ∈ s.threads, ∀ p ∈ s.blocks, ∀ file, ∃ ending u v,
      (execute p.2).Ends (t.setRegisters file) (.ok ending) u
        ∧ (execute p.1).Ends (t.setRegisters file) (.ok ending) v
        ∧ u.registers = v.registers := by
  obtain ⟨-, c, hreg, -⟩ := Activation.activate_ends_success hact
  obtain ⟨harch, rfl⟩ := Checker.register_ends hreg
  have hc : c.Registered := ⟨_, _, hreg.1⟩
  have hinv : Inv c s := by
    refine Inv.reachable hc (harch.trans hx) ?_ hrun
    show Host.place c.registration h₀.clients = _
    rw [hclients]
    rfl
  refine ⟨fun t forTrace rebuilding d hd hb => ?_, fun t ht p hp file => ?_⟩
  · obtain ⟨⟨outcome, ho⟩, -⟩ := c.mirrors_processBlock hc (harch.trans hx) hd hb
    exact (process_ends hinv.clients ho).1
  · obtain ⟨ht, pair, hpair⟩ := hinv.threads t ht
    obtain ⟨d, hd, hb, hp₁, hp₂⟩ := hinv.blocks p hp
    obtain ⟨ending, u, hu, hv, -⟩ := (c.mirrors_processBlock hc (harch.trans hx) hd hb).2
      (t.setRegisters file) pair ht hpair
    rw [hp₁, hp₂]
    exact ⟨ending, u, _, (execute_ends_iff (t := t.setRegisters file) ht).2 hu,
      (execute_ends_iff (t := t.setRegisters file) ht).2 hv, rfl⟩

/-- A host with one checker, a thread, and a block that has been processed. -/
def small : Session where
  host := { Checker.first.settle Host.new with nextThread := 2 }
  threads := [subject]
  blocks := [(Draft.counting.block, Checker.first.processed 2 Draft.counting.block)]

theorem reachable_small :
    Relation.ReflTransGen Step (start (Checker.first.settle Host.new)) small := by
  refine .tail (.tail .refl (.spawn (t := subject) ⟨rfl, rfl⟩)) ?_
  have built : (Host.process { Checker.first.settle Host.new with nextThread := 2 } subject false
      false).Ends .counting (.ok ()) (Checker.first.processBlock .counting).state := ⟨rfl, rfl⟩
  exact .build (s := ⟨{ Checker.first.settle Host.new with nextThread := 2 }, [subject], []⟩)
    (by decide) (by decide) built

theorem activate_small : (Activation.new (.new .x64)).activate.Ends Host.new
    (.ok (.success, ⟨.new .x64, 1, some Checker.first⟩)) (Checker.first.settle Host.new) :=
  ⟨rfl, rfl⟩

theorem transparent_small :
    ∃ ending u v, (execute (Checker.first.processed 2 Draft.counting.block)).Ends
        (subject.setRegisters .zero) (.ok ending) u
      ∧ (execute Draft.counting.block).Ends (subject.setRegisters .zero) (.ok ending) v
      ∧ u.registers = v.registers :=
  (transparent rfl rfl activate_small reachable_small).2 subject List.mem_cons_self
    (Draft.counting.block, Checker.first.processed 2 Draft.counting.block) List.mem_cons_self .zero

end Session

end Rerun
