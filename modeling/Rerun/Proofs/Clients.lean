import Rerun.Proofs.Registered
import Rerun.Proofs.Saved

/-!
# Clients in their order

A thread that has started has been to every client (`spawn_ends`, `tellStarted_cons`), and a block
goes from one client to the next (`tellBuilt_cons`). With the checkers of a list for clients, a new
thread holds a pair in the slot of each of them (`tellStarted_registrations`).
-/

namespace Rerun

open Rerun.Action Thread

namespace Host

variable {h h' : Host} {arch : Arch} {t t' : Thread} {r : Registration} {rest : List Registration}

theorem tellStarted_cons (hr : (tellStarted (r :: rest)).Ends t (.ok ()) t') :
    ∃ t₁, r.client.started.Ends t (.ok ()) t₁ ∧ (tellStarted rest).Ends t₁ (.ok ()) t' := by
  obtain ⟨_, _, hget, h₁⟩ := hr.of_bind
  obtain ⟨-, rfl⟩ := Ends.unique hget (ends_get _)
  obtain ⟨_, _, hrecord, h₂⟩ := h₁.of_bind
  obtain ⟨-, rfl⟩ := Ends.unique hrecord (ends_record _ _)
  obtain ⟨_, t₁, hstarted, hrest⟩ := h₂.of_bind
  exact ⟨t₁, hstarted, hrest⟩

/-- A thread that starts goes through the clients, and these stay as they are. -/
theorem spawn_ends (hs : (spawn arch).Ends h (.ok t) h') :
    (tellStarted h.clients).Ends (Thread.new h.nextThread arch) (.ok ()) t
      ∧ h'.clients = h.clients := by
  obtain ⟨_, _, hget, h₁⟩ := hs.of_bind
  obtain ⟨heq, rfl⟩ := Ends.unique hget (ends_get _)
  obtain rfl := Except.ok.inj heq
  obtain ⟨_, _, hset, h₂⟩ := h₁.of_bind
  obtain ⟨-, rfl⟩ := Ends.unique hset (ends_set _ _)
  obtain ⟨⟨⟨⟩, t₁⟩, _, hon, h₃⟩ := h₂.of_bind
  obtain ⟨htell, rfl⟩ := hon.of_on
  obtain ⟨_, _, hsay, h₄⟩ := h₃.of_bind
  obtain ⟨-, rfl⟩ := Ends.unique hsay (ends_say _ _ _ _)
  obtain ⟨heq, rfl⟩ := Ends.unique h₄ (ends_pure _ _)
  obtain rfl := Except.ok.inj heq
  exact ⟨htell, rfl⟩

theorem tellBuilt_cons {forTrace rebuilding : Bool} {d d₁ d' : Draft} {res : Except Fault Unit}
    (hr : (r.client.built t forTrace rebuilding).Ends d (.ok ()) d₁)
    (hrest : (tellBuilt t forTrace rebuilding rest).Ends d₁ res d') :
    (tellBuilt t forTrace rebuilding (r :: rest)).Ends d res d' :=
  (ends_get d).bind ((ends_record _ _).bind (hr.bind hrest))

end Host

namespace Checker

variable {c : Checker} {cs : List Checker} {t t' : Thread} {d : Draft}

theorem built_ends {outcome : BlockOutcome} (hp : (c.processBlock d).result = .ok outcome)
    (t : Thread) (forTrace rebuilding : Bool) :
    (c.client.built t forTrace rebuilding).Ends d (.ok ()) (c.processBlock d).state :=
  Ends.bind ⟨hp, rfl⟩ (ends_pure _ _)

/-- A thread that has started, as the checkers of a list have left it. -/
def started (cs : List Checker) (t : Thread) : Thread :=
  cs.foldl (fun t c => t.withSnapshots c.slot .zero) t

theorem tellStarted_registrations
    (h : (Host.tellStarted (cs.map registration)).Ends t (.ok ()) t') : t' = started cs t := by
  induction cs generalizing t with
  | nil => exact (Ends.unique h (ends_pure _ _)).2
  | cons c rest ih =>
    obtain ⟨t₁, hstarted, hrest⟩ := Host.tellStarted_cons h
    obtain ⟨-, rfl⟩ := allocate_ends hstarted
    exact ih hrest

theorem arch_started (cs : List Checker) (t : Thread) : (started cs t).arch = t.arch := by
  induction cs generalizing t with
  | nil => rfl
  | cons c rest ih => exact ih _

/-- A pair is kept, even if its slot is given a new one. -/
theorem snapshots?_started (cs : List Checker) {k : Nat}
    (h : (∃ pair, t.snapshots? k = some pair) ∨ k ∈ cs.map (·.slot)) :
    ∃ pair, (started cs t).snapshots? k = some pair := by
  induction cs generalizing t with
  | nil => exact h.resolve_right List.not_mem_nil
  | cons c rest ih =>
    refine ih ?_
    by_cases hk : k = c.slot
    · subst hk
      exact .inl ⟨_, snapshots?_withSnapshots t c.slot .zero⟩
    · rw [snapshots?_congr (slot_withSnapshots_of_ne hk t .zero)]
      simpa [hk] using h

end Checker

end Rerun
