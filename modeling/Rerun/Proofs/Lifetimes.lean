import Mathlib.Data.List.Nodup
import Rerun.Clobber
import Rerun.Tool
import Rerun.Proofs.Coexisting
import Rerun.Proofs.Held

/-!
# Snapshots through the life of a thread

Threads start and end on a host with a number of checkers; in between, lists go through the host and
threads run them, to whatever end. All the while a thread holds a pair in the slot of each checker
and nothing else, and when it has ended it holds nothing (`Fleet.snapshots_follow`). So no call
finds its slot empty, no slot is given a pair twice, and none is empty when its pair is to be given
back.
-/

namespace Rerun

open Rerun.Action Draft Thread

/-! ## Clients -/

/-- A client that has nothing to do with the storage of threads. -/
structure Client.Quiet (r : Client) : Prop where
  started : ∀ t, ∃ t', r.started.Ends t (.ok ()) t' ∧ ∀ k, t'.slot k = t.slot k
  ended : ∀ t, ∃ t', r.ended.Ends t (.ok ()) t' ∧ ∀ k, t'.slot k = t.slot k
  built : ∀ t forTrace rebuilding, Draft.Quiet (r.built t forTrace rebuilding)

theorem Clobber.quiet (tool : Clobber) : tool.client.Quiet where
  started t := ⟨t, ends_pure _ _, fun _ => rfl⟩
  ended t := ⟨t, ends_pure _ _, fun _ => rfl⟩
  built t forTrace rebuilding := by
    refine Safe.bind ?_ fun applied => ?_
    · refine safe_get.bind fun d => ?_
      split
      · exact safe_pure _
      · refine (quiet_entry _ _ _).bind fun e => (quiet_edit _ _).bind fun _ => safe_pure _
    · split
      · exact safe_say _ _ _
      · exact safe_pure _

theorem Tool.quiet_addBefore (i : X64.Instruction) (es : List Entry) : Quiet (addBefore i es) := by
  induction es with
  | nil => exact safe_pure _
  | cons e rest ih =>
    exact (quiet_entry _ _ _).bind fun _ => (quiet_edit _ _).bind fun _ => ih

theorem Tool.quiet (tool : Tool) : tool.client.Quiet where
  started t := ⟨t, ends_pure _ _, fun _ => rfl⟩
  ended t := ⟨t, ends_pure _ _, fun _ => rfl⟩
  built t forTrace rebuilding := by
    refine safe_get.bind fun d => ?_
    dsimp only
    split
    · exact safe_pure _
    · exact quiet_addBefore _ _
    · exact quiet_addBefore _ _
    · exact quiet_addBefore _ _
    · exact (quiet_entry _ _ _).bind fun _ => (quiet_modify _).bind fun _ => safe_pure _

namespace Host

open Thread

variable {rs : List Registration} {cs live : List Checker} {others slots : List Nat} {h h' : Host}
  {t t' : Thread}

/-- The clients of a list are the checkers of another one, in their order, and in between clients
that have nothing to do with threads. -/
inductive Manned : List Registration → List Checker → Prop
  | nil : Manned [] []
  | checker {rs : List Registration} {cs : List Checker} (c : Checker)
      (new : c.slot ∉ cs.map (·.slot)) (rest : Manned rs cs) :
      Manned (c.registration :: rs) (c :: cs)
  | other {rs : List Registration} {cs : List Checker} (r : Registration) (quiet : r.client.Quiet)
      (rest : Manned rs cs) : Manned (r :: rs) cs

/-- The clients of a host are the live checkers and others. -/
theorem Serves.manned (hs : h.Serves live others)
    (hquiet : ∀ r ∈ h.clients, (∃ c ∈ live, c.registration = r) ∨ r.client.Quiet) :
    ∃ cs, Manned h.clients cs ∧ ∀ c, c ∈ cs ↔ c ∈ live := by
  have hslots := hs.nodup_slots
  have hnames : (live.map (·.priority.name)).Nodup :=
    List.pairwise_map.2 (hs.apart.imp And.left)
  suffices hmanned : ∀ rs : List Registration, (rs.map (·.priority.name)).Nodup →
      (∀ r ∈ rs, r ∈ h.clients) → ∃ cs, Manned rs cs
        ∧ ∀ c, c ∈ cs ↔ c ∈ live ∧ c.registration ∈ rs by
    obtain ⟨cs, hcs, hmem⟩ := hmanned h.clients hs.names fun _ hr => hr
    exact ⟨cs, hcs, fun c => (hmem c).trans (and_iff_left_of_imp fun hc => hs.clients c hc)⟩
  -- names are distinct, so the entry of a checker does not come twice
  intro rs hrs hsub
  induction rs with
  | nil => exact ⟨[], .nil, by simp⟩
  | cons r rest ih =>
    rw [List.map_cons, List.nodup_cons] at hrs
    obtain ⟨cs, hcs, hmem⟩ := ih hrs.2 fun x hx => hsub x (List.mem_cons_of_mem _ hx)
    by_cases hr : ∃ c ∈ live, c.registration = r
    · obtain ⟨c, hc, rfl⟩ := hr
      refine ⟨c :: cs, .checker c ?_ hcs, fun c' => ?_⟩
      · intro hslot
        obtain ⟨c', hc', heq⟩ := List.mem_map.1 hslot
        obtain ⟨hlive, hrest⟩ := (hmem c').1 hc'
        obtain rfl := List.inj_on_of_nodup_map hslots hlive hc heq
        exact hrs.1 (List.mem_map_of_mem hrest)
      · rw [List.mem_cons, hmem, List.mem_cons]
        constructor
        · rintro (rfl | ⟨hlive, hrest⟩)
          · exact ⟨hc, .inl rfl⟩
          · exact ⟨hlive, .inr hrest⟩
        · rintro ⟨hlive, heq | hrest⟩
          · exact .inl (List.inj_on_of_nodup_map hnames hlive hc
              (congrArg (·.priority.name) heq))
          · exact .inr ⟨hlive, hrest⟩
    · have hr' := (hquiet r (hsub r List.mem_cons_self)).resolve_left hr
      refine ⟨cs, .other r hr' hcs, fun c => ?_⟩
      rw [hmem, List.mem_cons]
      refine and_congr_right fun hc => ⟨.inr, fun hor => hor.resolve_left fun heq => ?_⟩
      exact hr ⟨c, hc, heq⟩

section Rounds

variable {r : Registration} {rest : List Registration} {t₁ : Thread} {res : Except Fault Unit}
  {e : Fault}

theorem tellStarted_next (hr : r.client.started.Ends t (.ok ()) t₁)
    (hrest : (tellStarted rest).Ends t₁ res t') : (tellStarted (r :: rest)).Ends t res t' :=
  (ends_get t).bind ((ends_record _ _).bind (hr.bind hrest))

theorem tellStarted_stop (hr : r.client.started.Ends t (.error e) t') :
    (tellStarted (r :: rest)).Ends t (.error e) t' :=
  (ends_get t).bind ((ends_record _ _).bind hr.bind_error)

theorem tellEnded_next (hr : r.client.ended.Ends t (.ok ()) t₁)
    (hrest : (tellEnded rest).Ends t₁ res t') : (tellEnded (r :: rest)).Ends t res t' :=
  (ends_get t).bind ((ends_record _ _).bind (hr.bind hrest))

end Rounds

/-- A thread that has been to all clients holds a pair for each checker. -/
theorem Manned.tellStarted_cases (hm : Manned rs cs) (ht : Holds slots t)
    (hslots : ∀ k ∈ cs.map (·.slot), k ∉ slots) :
    (∃ t', (tellStarted rs).Ends t (.ok ()) t' ∧ Holds (cs.map (·.slot) ++ slots) t')
      ∨ (∃ k ∈ cs.map (·.slot), ¬Storable k)
        ∧ ∃ e t', (tellStarted rs).Ends t (.error e) t' ∧ ¬e.Unheld := by
  induction hm generalizing t slots with
  | nil => exact .inl ⟨t, ends_pure _ _, ht⟩
  | @checker rs cs c new rest ih =>
    rcases allocate_cases ht (hslots c.slot (by simp)) with ⟨t₁, h₁, ht₁⟩ | ⟨hnot, e, t₁, h₁, he⟩
    · have hrest : ∀ k ∈ cs.map (·.slot), k ∉ c.slot :: slots := by
        intro k hk
        rw [List.mem_cons, not_or]
        exact ⟨fun heq => new (heq ▸ hk), hslots k (List.mem_cons_of_mem _ hk)⟩
      rcases ih ht₁ hrest with ⟨t', h', ht'⟩ | ⟨⟨k, hk, hnot⟩, e, t', h', he⟩
      · refine .inl ⟨t', tellStarted_next h₁ h', ht'.of_mem_iff fun k => ?_⟩
        simp only [List.map_cons, List.cons_append, List.mem_cons, List.mem_append]
        exact or_left_comm
      · exact .inr ⟨⟨k, List.mem_cons_of_mem _ hk, hnot⟩, e, t', tellStarted_next h₁ h', he⟩
    · exact .inr ⟨⟨c.slot, List.mem_cons_self, hnot⟩, e, t₁, tellStarted_stop h₁, he⟩
  | other r quiet rest ih =>
    obtain ⟨t₁, h₁, hkept⟩ := quiet.started t
    rcases ih (ht.congr hkept) hslots with ⟨t', h', ht'⟩ | ⟨hnot, e, t', h', he⟩
    · exact .inl ⟨t', tellStarted_next h₁ h', ht'⟩
    · exact .inr ⟨hnot, e, t', tellStarted_next h₁ h', he⟩

/-- A thread that ends gives a pair back to each checker. -/
theorem Manned.tellEnded_ends (hm : Manned rs cs) (ht : Holds (cs.map (·.slot)) t) :
    ∃ t', (tellEnded rs).Ends t (.ok ()) t' ∧ Holds [] t' := by
  induction hm generalizing t with
  | nil => exact ⟨t, ends_pure _ _, ht⟩
  | checker c new rest ih =>
    obtain ⟨h₁, ht₁⟩ := release_ends ht new
    obtain ⟨t', h', ht'⟩ := ih ht₁
    exact ⟨t', tellEnded_next h₁ h', ht'⟩
  | other r quiet rest ih =>
    obtain ⟨t₁, h₁, hkept⟩ := quiet.ended t
    obtain ⟨t', h', ht'⟩ := ih (ht.congr hkept)
    exact ⟨t', tellEnded_next h₁ h', ht'⟩

theorem Manned.quiet_tellBuilt (hm : Manned rs cs) (t : Thread) (forTrace rebuilding : Bool) :
    Draft.Quiet (tellBuilt t forTrace rebuilding rs) := by
  induction hm with
  | nil => exact safe_pure _
  | checker c new rest ih =>
    refine safe_get.bind fun d => (safe_record _).bind fun _ => ?_
    exact (c.quiet_processBlock.bind fun _ => safe_pure _).bind fun _ => ih
  | other r quiet rest ih =>
    refine safe_get.bind fun d => (safe_record _).bind fun _ => ?_
    exact (quiet.built t forTrace rebuilding).bind fun _ => ih

/-- A thread starts, unless the slot of a checker is too large for any thread. -/
theorem Manned.spawn_cases (hm : Manned h.clients cs) (arch : Arch) :
    (∃ t h', (spawn arch).Ends h (.ok t) h' ∧ h'.clients = h.clients
        ∧ Holds (cs.map (·.slot)) t)
      ∨ (∃ k ∈ cs.map (·.slot), ¬Storable k)
        ∧ ∃ e h', (spawn arch).Ends h (.error e) h' ∧ h'.clients = h.clients ∧ ¬e.Unheld := by
  have hnew := holds_new h.nextThread arch
  rcases hm.tellStarted_cases hnew (fun _ _ => List.not_mem_nil) with
    ⟨t, htell, ht⟩ | ⟨hnot, e, t, htell, he⟩
  · rw [List.append_nil] at ht
    refine .inl ⟨t, { h with nextThread := h.nextThread + 1 }, ?_, rfl, ht⟩
    refine (ends_get h).bind ((ends_set _ _).bind ((htell.on _).bind ?_))
    exact (ends_say _ _ _ _).bind (ends_pure _ _)
  · refine .inr ⟨hnot, e, { h with nextThread := h.nextThread + 1 }, ?_, rfl, he⟩
    exact (ends_get h).bind ((ends_set _ _).bind (htell.on_error _).bind_error)

theorem Manned.exit_ends (hm : Manned h.clients cs) (ht : Holds (cs.map (·.slot)) t) :
    ∃ t', h.exit.Ends t (.ok ()) t' ∧ Holds [] t' := by
  obtain ⟨t', htell, ht'⟩ := hm.tellEnded_ends ht
  exact ⟨t', htell.bind ((ends_get t').bind (ends_say _ _ _ _)), ht'⟩

end Host

/-! ## Threads come and go -/

/-- The fault with which an action has ended. -/
def Outcome.fault? {σ α : Type} (o : Outcome σ α) : Option Fault :=
  match o.result with
  | .ok _ => none
  | .error e => some e

theorem Outcome.fault?_eq_some {σ α : Type} {o : Outcome σ α} {e : Fault} :
    o.fault? = some e ↔ o.result = .error e := by
  rw [fault?]
  rcases o.result with e' | a <;> simp

/-- A host with the threads that run on it and those that have ended. -/
structure Fleet where
  host : Host
  running : List Thread
  ended : List Thread

namespace Fleet

open Host

variable {live cs : List Checker} {f f' : Fleet} {fault : Option Fault}

/-- What can happen, and the fault in which it results if it does not end well. Whatever a thread
does half way through a list remains. -/
inductive Step (live : List Checker) : Fleet → Option Fault → Fleet → Prop
  /-- A thread starts. -/
  | spawn {f : Fleet} {arch : Arch} {t : Thread} {h : Host}
      (started : (Host.spawn arch).Ends f.host (.ok t) h) :
      Step live f none { f with host := h, running := t :: f.running }
  /-- A thread does not start. -/
  | refuse {f : Fleet} {arch : Arch} {e : Fault} {h : Host}
      (refused : (Host.spawn arch).Ends f.host (.error e) h) :
      Step live f (some e) { f with host := h }
  /-- A list goes through the clients. -/
  | process {f : Fleet} (t : Thread) (d : Draft) (forTrace rebuilding : Bool) :
      Step live f (f.host.process t forTrace rebuilding d).fault? f
  /-- A thread runs a list, from any registers. -/
  | execute {f : Fleet} {before after : List Thread} {t : Thread} {b : Block}
      (file : RegisterFile) (running : f.running = before ++ t :: after)
      (calls : b.CallsCheckers live) :
      Step live f (execute b (t.setRegisters file)).fault?
        { f with running := before ++ (execute b (t.setRegisters file)).state :: after }
  /-- A thread ends. -/
  | exit {f : Fleet} {before after : List Thread} {t : Thread}
      (running : f.running = before ++ t :: after) :
      Step live f (f.host.exit t).fault?
        { f with running := before ++ after, ended := (f.host.exit t).state :: f.ended }
  /-- The host does something else, and keeps its clients. -/
  | other {f : Fleet} {h : Host} (clients : h.clients = f.host.clients) :
      Step live f none { f with host := h }

/-- What can become of a fleet. -/
inductive Leads (live : List Checker) (f₀ : Fleet) : Fleet → Prop
  | refl : Leads live f₀ f₀
  | step {f f' : Fleet} {fault : Option Fault} (led : Leads live f₀ f)
      (next : Step live f fault f') : Leads live f₀ f'

/-- A running thread holds a pair for each checker, and one that has ended holds nothing. -/
structure Inv (cs : List Checker) (f : Fleet) : Prop where
  manned : Manned f.host.clients cs
  running : ∀ t ∈ f.running, Holds (cs.map (·.slot)) t
  ended : ∀ t ∈ f.ended, Holds [] t

theorem Inv.step (hf : Inv cs f) (hcs : ∀ c, c ∈ live → c ∈ cs) (hs : Step live f fault f') :
    Inv cs f' ∧ ∀ e, fault = some e → ¬e.Unheld := by
  cases hs with
  | @spawn arch t h started =>
    rcases hf.manned.spawn_cases arch with ⟨t₁, h₁, hends, hclients, ht⟩ | ⟨-, e, h₁, hends, -⟩
    · obtain ⟨heq, rfl⟩ := Ends.unique started hends
      obtain rfl := Except.ok.inj heq
      refine ⟨⟨?_, List.forall_mem_cons.2 ⟨ht, hf.running⟩, hf.ended⟩, nofun⟩
      rw [hclients]
      exact hf.manned
    · cases (Ends.unique started hends).1
  | @refuse arch e h refused =>
    rcases hf.manned.spawn_cases arch with ⟨t, h₁, hends, -⟩ | ⟨-, e₁, h₁, hends, hclients, he⟩
    · cases (Ends.unique refused hends).1
    · obtain ⟨heq, rfl⟩ := Ends.unique refused hends
      obtain rfl := Except.error.inj heq
      refine ⟨⟨?_, hf.running, hf.ended⟩, fun e' he' => Option.some.inj he' ▸ he⟩
      rw [hclients]
      exact hf.manned
  | process t d forTrace rebuilding =>
    obtain ⟨-, hfault⟩ := hf.manned.quiet_tellBuilt t forTrace rebuilding d trivial
    exact ⟨hf, fun e he => hfault e (Outcome.fault?_eq_some.1 he)⟩
  | @execute before after t b file running calls =>
    have hb : b.CallsCheckers cs := fun e he call hc =>
      (calls e he call hc).imp fun c hc => ⟨hcs c hc.1, hc.2⟩
    have hall := hf.running
    rw [running, List.forall_mem_append, List.forall_mem_cons] at hall
    obtain ⟨hbefore, ht, hafter⟩ := hall
    obtain ⟨hkept, hfault⟩ := careful_execute hb _ (ht.setRegisters file)
    refine ⟨⟨hf.manned, ?_, hf.ended⟩, fun e he => hfault e (Outcome.fault?_eq_some.1 he)⟩
    exact List.forall_mem_append.2 ⟨hbefore, List.forall_mem_cons.2 ⟨hkept, hafter⟩⟩
  | @exit before after t running =>
    have hall := hf.running
    rw [running, List.forall_mem_append, List.forall_mem_cons] at hall
    obtain ⟨hbefore, ht, hafter⟩ := hall
    obtain ⟨t', ⟨hr, rfl⟩, ht'⟩ := hf.manned.exit_ends ht
    refine ⟨⟨hf.manned, List.forall_mem_append.2 ⟨hbefore, hafter⟩,
      List.forall_mem_cons.2 ⟨ht', hf.ended⟩⟩, fun e he => ?_⟩
    rw [Outcome.fault?_eq_some, hr] at he
    cases he
  | other clients => exact ⟨⟨clients ▸ hf.manned, hf.running, hf.ended⟩, nofun⟩

theorem Inv.leads (hf : Inv cs f) (hcs : ∀ c, c ∈ live → c ∈ cs) (hl : Leads live f f') :
    Inv cs f' := by
  induction hl with
  | refl => exact hf
  | step _ next ih => exact (ih.step hcs next).1

/-- Whatever happens on a host with the live checkers of a site, and with clients besides them that
have nothing to do with threads: a running thread holds a pair in the slot of each live checker and
nothing in any other one, and a thread that has ended holds nothing. No slot is given a pair twice,
no call misses its pair, and none is missing when a thread ends. -/
theorem snapshots_follow {h₀ : Host} {configs : List Config} {calls : Nat} {s : Site}
    (hclients : h₀.clients = []) (htaken : h₀.taken = [])
    (hs : Site.Reaches (Site.start h₀ configs) calls s)
    (hquiet : ∀ r ∈ s.host.clients, (∃ c ∈ s.live, c.registration = r) ∨ r.client.Quiet)
    (hl : Leads s.live ⟨s.host, [], []⟩ f) :
    (∀ t ∈ f.running, ∀ k,
      (k ∈ s.live.map (·.slot) → ∃ pair, t.slot k = some (.snapshots pair))
        ∧ (k ∉ s.live.map (·.slot) → t.slot k = none))
    ∧ (∀ t ∈ f.ended, ∀ k, t.slot k = none)
    ∧ (∀ e f', Step s.live f (some e) f' →
      e ≠ .initializedTwice ∧ (∀ k, e ≠ .noSnapshots k) ∧ e ≠ .nothingToRelease)
    ∧ (∀ t ∈ f.running, ∃ t', f.host.exit.Ends t (.ok ()) t' ∧ ∀ k, t'.slot k = none)
    ∧ ((∀ k ∈ s.live.map (·.slot), Storable k) →
      ∀ arch, ∃ t h, (Host.spawn arch).Ends f.host (.ok t) h) := by
  have hserves := (Site.Inv.reaches hclients htaken hs).serves
  obtain ⟨cs, hmanned, hcs⟩ := hserves.manned hquiet
  have hslots : ∀ k, k ∈ cs.map (·.slot) ↔ k ∈ s.live.map (·.slot) := by
    intro k
    simp only [List.mem_map, hcs]
  have hstart : Inv cs ⟨s.host, [], []⟩ := ⟨hmanned, nofun, nofun⟩
  have hf := hstart.leads (fun c => (hcs c).2) hl
  refine ⟨fun t ht k => ⟨fun hk => ?_, fun hk => ?_⟩, fun t ht k => ?_, fun e f' hstep => ?_,
    fun t ht => ?_, fun hall arch => ?_⟩
  · obtain ⟨pair, hpair⟩ := (hf.running t ht).pair k ((hslots k).2 hk)
    exact ⟨pair, slot_eq_of_snapshots? hpair⟩
  · exact (hf.running t ht).empty k (mt (hslots k).1 hk)
  · exact (hf.ended t ht).empty k List.not_mem_nil
  · have he := (hf.step (fun c => (hcs c).2) hstep).2 e rfl
    exact ⟨fun h => he (h ▸ trivial), fun k h => he (h ▸ trivial), fun h => he (h ▸ trivial)⟩
  · obtain ⟨t', hends, ht'⟩ := hf.manned.exit_ends (hf.running t ht)
    exact ⟨t', hends, fun k => ht'.empty k List.not_mem_nil⟩
  · rcases hf.manned.spawn_cases arch with ⟨t, h, hends, -⟩ | ⟨⟨k, hk, hnot⟩, -⟩
    · exact ⟨t, h, hends⟩
    · exact absurd (hall k ((hslots k).1 hk)) hnot

/-- One more in a register, and then the second of two checkers looks at the registers. -/
def upset : Block :=
  Draft.counting.block.take 1 ++ [⟨2, .call (.compare Site.second.slot .x64), false, none⟩]

theorem callsCheckers_upset : upset.CallsCheckers Site.together.live := by
  intro e he call hcall
  obtain rfl | rfl : e = Draft.counting.block.head (by decide)
      ∨ e = ⟨2, .call (.compare Site.second.slot .x64), false, none⟩ := by
    simpa [upset, Draft.counting] using he
  · cases hcall
  · cases hcall
    exact ⟨Site.second, by decide, .inr (.inr rfl)⟩

/-- A thread that a checker has stopped. -/
def stopped : Thread := (execute upset (Site.visitor.setRegisters .zero)).state

theorem snapshots_follow_upset :
    (execute upset (Site.visitor.setRegisters .zero)).result
        = .error (.mismatch ⟨"rax", "0x0", "0x1"⟩)
      ∧ (∃ pair, stopped.slot 0 = some (.snapshots pair))
      ∧ (∃ pair, stopped.slot 1 = some (.snapshots pair))
      ∧ stopped.slot 2 = none
      ∧ ∃ t', (Host.exit { Site.together.host with nextThread := 2 }).Ends stopped (.ok ()) t'
        ∧ ∀ k, t'.slot k = none := by
  have hquiet : ∀ r ∈ Site.together.host.clients,
      (∃ c ∈ Site.together.live, c.registration = r) ∨ r.client.Quiet := by
    intro r hr
    obtain rfl | rfl : r = Checker.first.registration ∨ r = Site.second.registration := by
      simpa using show r ∈ [Checker.first.registration, Site.second.registration] from hr
    · exact .inl ⟨Checker.first, by decide, rfl⟩
    · exact .inl ⟨Site.second, by decide, rfl⟩
  have hspawned : Leads Site.together.live ⟨Site.together.host, [], []⟩
      ⟨{ Site.together.host with nextThread := 2 }, [Site.visitor], []⟩ :=
    .step .refl (.spawn Site.spawn_together)
  have hstopped : Leads Site.together.live ⟨Site.together.host, [], []⟩
      ⟨{ Site.together.host with nextThread := 2 }, [stopped], []⟩ :=
    hspawned.step (.execute .zero (show _ = [] ++ Site.visitor :: [] from rfl)
      callsCheckers_upset)
  obtain ⟨hslots, -, -, hexit, -⟩ :=
    snapshots_follow rfl rfl Site.reaches_together hquiet hstopped
  have hmem : stopped ∈ [stopped] := List.mem_cons_self
  refine ⟨by decide +kernel, (hslots stopped hmem 0).1 (by decide), (hslots stopped hmem 1).1
    (by decide), (hslots stopped hmem 2).2 (by decide), hexit stopped hmem⟩

end Fleet

end Rerun
