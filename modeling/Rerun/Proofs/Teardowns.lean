import Rerun.Proofs.Sites

/-!
# What a teardown leaves behind

A teardown strikes the checker's client off the list, and gives the slot back only if there was a
client of that name. Where anyone may strike clients off, a teardown can fail for want of one, and
then the slot stays in use for good: the slots in use are those of the live checkers, those of other
users, and those of the checkers whose teardown has failed (`Balanced`). The client is gone in
either case, and the slot exactly if the teardown succeeds (`slot_returned_iff`).
-/

namespace Rerun

open Rerun.Action

namespace Host

variable {h h' : Host} {live : List Checker} {others others' : List Nat} {c : Checker} {k : Nat}

theorem Lends.perm_others (hl : h.Lends live others) (hp : others.Perm others') :
    h.Lends live others' :=
  ⟨hl.nodup, hl.slots.trans (hp.append_left _)⟩

theorem Lends.congr (hl : h.Lends live others) (htaken : h'.taken = h.taken) :
    h'.Lends live others :=
  ⟨htaken ▸ hl.nodup, htaken ▸ hl.slots⟩

/-- A slot that is not given back with its checker is in the hands of others. -/
theorem Lends.lose (hl : h.Lends (c :: live) others) : h.Lends live (c.slot :: others) :=
  ⟨hl.nodup, hl.slots.trans List.perm_middle.symm⟩

theorem taken_addClient (h : Host) (r : Registration) : (h.addClient r).2.taken = h.taken := by
  by_cases hr : h.Refuses r
  · rw [addClient_of_refuses hr]
  · rw [addClient_of_not_refuses hr]

end Host

namespace Activation

open Host

variable {a a' : Activation} {h h' : Host} {c : Checker} {rest : List Checker} {others : List Nat}
  {status : Status}

/-- The slot that is lost with the checker if letting go of it ends with a status. -/
def lost (a : Activation) (status : Status) : List Nat :=
  if status = .error then a.checker.toList.map (·.slot) else []

theorem Matched.activate (ha : a.Matched) (hl : h.Lends (a.checker.toList ++ rest) others)
    (hends : a.activate.Ends h (.ok (status, a')) h') :
    a'.Matched ∧ h'.Lends (a'.checker.toList ++ rest) others := by
  rcases Nat.eq_zero_or_pos a.count with hcount | hcount
  · rcases Checker.register_cases a.config h with ⟨e, h₁, hreg, hh⟩ | ⟨k, hk, -, -, hreg⟩
    · obtain ⟨heq, rfl⟩ := Ends.unique (activate_ends_error hcount hreg) hends
      cases heq
      refine ⟨ha, hl.congr ?_⟩
      rcases hh with rfl | ⟨-, rfl⟩ <;> rfl
    · obtain ⟨heq, rfl⟩ := Ends.unique (activate_ends_ok hcount hreg) hends
      cases heq
      rw [ha.checker_eq_none hcount] at hl
      exact ⟨by simp [Matched], hl.settle (not_mem_of_freeSlot? hk)⟩
  · obtain ⟨heq, rfl⟩ := Ends.unique (activate_ends_again (Nat.ne_of_gt hcount)) hends
    cases heq
    exact ⟨by simp [Matched, ha.1 hcount], hl⟩

/-- The last one to let go: the client goes, and the slot goes with it if there was a client. -/
theorem deactivate_ends_last (hcount : a.count = 1) (hc : a.checker = some c)
    (hk : c.slot ∈ h.taken) :
    ((∃ r ∈ h.clients, r.priority.name = c.priority.name) →
      a.deactivate.Ends h (.ok (.success, { a with count := 0, checker := none })) (c.dismiss h))
    ∧ ((¬∃ r ∈ h.clients, r.priority.name = c.priority.name) →
      a.deactivate.Ends h (.ok (.error, { a with count := 0, checker := none })) h) := by
  constructor
  · rintro ⟨r, hr, hname⟩
    exact deactivate_ends_ok hcount hc (Checker.unregister_ends_named hr hname hk)
  · intro hnone
    have hne : ∀ r ∈ h.clients, r.priority.name ≠ c.priority.name :=
      fun r hr heq => hnone ⟨r, hr, heq⟩
    exact deactivate_ends_error hcount hc (Checker.unregister_ends_notHeld hne)

theorem Matched.deactivate (ha : a.Matched) (hl : h.Lends (a.checker.toList ++ rest) others)
    (hends : a.deactivate.Ends h (.ok (status, a')) h') :
    a'.Matched ∧ h'.Lends (a'.checker.toList ++ rest) (a.lost status ++ others) := by
  rcases Nat.lt_trichotomy a.count 1 with hcount | hcount | hcount
  · obtain ⟨heq, rfl⟩ := Ends.unique (deactivate_ends_idle (by omega)) hends
    cases heq
    exact ⟨ha, hl⟩
  · obtain ⟨c, hc⟩ := ha.exists_checker (by omega)
    rw [hc] at hl
    obtain ⟨hsuccess, herror⟩ := deactivate_ends_last hcount hc (hl.mem_taken List.mem_cons_self)
    by_cases hnamed : ∃ r ∈ h.clients, r.priority.name = c.priority.name
    · obtain ⟨heq, rfl⟩ := Ends.unique (hsuccess hnamed) hends
      cases heq
      exact ⟨by simp [Matched], hl.dismiss⟩
    · obtain ⟨heq, rfl⟩ := Ends.unique (herror hnamed) hends
      cases heq
      have hlost : a.lost .error = [c.slot] := by rw [lost, if_pos rfl, hc]; rfl
      rw [hlost]
      exact ⟨by simp [Matched], hl.lose⟩
  · obtain ⟨heq, rfl⟩ := Ends.unique (deactivate_ends_shared hcount) hends
    cases heq
    have hpos : 0 < a.count - 1 := by omega
    exact ⟨by simp [Matched, hpos, ha.1 (by omega)], hl⟩

end Activation

namespace Site

open Host

variable {s s' : Site} {configs : List Config} {lost : List Nat}

/-- What can become of a site where anyone may add clients and strike them off. The list holds the
slots that teardowns have lost. -/
inductive Suffers (s₀ : Site) : List Nat → Site → Prop
  | refl : Suffers s₀ [] s₀
  /-- A checker is asked for. -/
  | activate {lost : List Nat} {s : Site} {pre post : List Activation} {a a' : Activation}
      {status : Status} {h : Host} (reached : Suffers s₀ lost s)
      (activations : s.activations = pre ++ a :: post)
      (ended : a.activate.Ends s.host (.ok (status, a')) h) :
      Suffers s₀ lost { s with host := h, activations := pre ++ a' :: post }
  /-- A checker is let go of. -/
  | deactivate {lost : List Nat} {s : Site} {pre post : List Activation} {a a' : Activation}
      {status : Status} {h : Host} (reached : Suffers s₀ lost s)
      (activations : s.activations = pre ++ a :: post)
      (ended : a.deactivate.Ends s.host (.ok (status, a')) h) :
      Suffers s₀ (a.lost status ++ lost) { s with host := h, activations := pre ++ a' :: post }
  /-- A client comes, under any name. -/
  | addClient {lost : List Nat} {s : Site} (reached : Suffers s₀ lost s) (r : Registration) :
      Suffers s₀ lost { s with host := (s.host.addClient r).2 }
  /-- A client is struck off, whoever it belongs to. -/
  | removeClient {lost : List Nat} {s : Site} (reached : Suffers s₀ lost s) (name : String) :
      Suffers s₀ lost { s with host := (s.host.removeClient name).2 }
  /-- Others do what harms nobody. -/
  | other {lost : List Nat} {s s' : Site} (reached : Suffers s₀ lost s) (next : Other s s') :
      Suffers s₀ lost s'

/-- Each activation is matched by its checker, and the slots in use are those of the checkers, those
that have been lost, and those of other users. -/
structure Balanced (lost : List Nat) (s : Site) : Prop where
  matched : ∀ a ∈ s.activations, a.Matched
  lends : s.host.Lends s.live (lost ++ s.others)

theorem Balanced.lends_of_eq {pre post : List Activation} {a : Activation}
    (hs : Balanced lost s) (ha : s.activations = pre ++ a :: post) :
    s.host.Lends (a.checker.toList ++ (pre ++ post).filterMap (·.checker)) (lost ++ s.others) := by
  have hlends := hs.lends
  rw [live, ha] at hlends
  exact hlends.perm (live_perm pre a post)

/-- A request concerns one activation. -/
theorem Balanced.update {pre post : List Activation} {a a' : Activation} {h : Host}
    {lost' : List Nat} (hs : Balanced lost s) (ha : s.activations = pre ++ a :: post)
    (ha' : a'.Matched) (hlends : h.Lends
      (a'.checker.toList ++ (pre ++ post).filterMap (·.checker)) (lost' ++ s.others)) :
    Balanced lost' { s with host := h, activations := pre ++ a' :: post } := by
  refine ⟨fun x hx => ?_, hlends.perm (live_perm pre a' post).symm⟩
  rcases mem_of_mem_update ha hx with rfl | hmem
  · exact ha'
  · exact hs.matched x hmem

theorem Balanced.other (hs : Balanced lost s) (h : Other s s') : Balanced lost s' := by
  cases h with
  | addClient foreign => exact ⟨hs.matched, hs.lends.congr (taken_addClient _ _)⟩
  | removeClient foreign => exact ⟨hs.matched, hs.lends.congr rfl⟩
  | takeSlot taken =>
    exact ⟨hs.matched, (hs.lends.takeSlot taken).perm_others List.perm_middle.symm⟩
  | @releaseSlot k held =>
    -- nobody holds a slot that has been lost, so it is not given back here
    have hnot : k ∉ lost := fun hlost =>
      have hnodup := (List.nodup_append.1 (hs.lends.slots.nodup_iff.1 hs.lends.nodup)).2.1
      (List.nodup_append.1 hnodup).2.2 k hlost k held rfl
    have hreleased := hs.lends.releaseSlot (List.mem_append_right lost held)
    rw [List.erase_append_right _ hnot] at hreleased
    exact ⟨hs.matched, hreleased⟩
  | host clients taken notes => exact ⟨hs.matched, hs.lends.congr taken⟩

theorem Balanced.suffers {h : Host} (hclients : h.clients = []) (htaken : h.taken = [])
    (hs : Suffers (start h configs) lost s) : Balanced lost s := by
  induction hs with
  | refl =>
    have hinv := inv_start configs hclients htaken
    exact ⟨fun a ha => (hinv.accounted a ha).matched, hinv.serves.lends⟩
  | activate _ activations ended ih =>
    obtain ⟨ha', hlends⟩ :=
      (ih.matched _ (by simp [activations])).activate (ih.lends_of_eq activations) ended
    exact ih.update activations ha' hlends
  | deactivate _ activations ended ih =>
    obtain ⟨ha', hlends⟩ :=
      (ih.matched _ (by simp [activations])).deactivate (ih.lends_of_eq activations) ended
    rw [← List.append_assoc] at hlends
    exact ih.update activations ha' hlends
  | addClient _ r ih => exact ⟨ih.matched, ih.lends.congr (taken_addClient _ r)⟩
  | removeClient _ name ih => exact ⟨ih.matched, ih.lends.congr rfl⟩
  | other _ next ih => exact ih.other next

theorem Balanced.mem_taken {a : Activation} {c : Checker} (hs : Balanced lost s)
    (ha : a ∈ s.activations) (hc : a.checker = some c) : c.slot ∈ s.host.taken :=
  hs.lends.mem_taken (List.mem_filterMap.2 ⟨a, ha, hc⟩)

/-- Whatever has been asked for, and whoever has struck off which clients: the slots in use are
those of the checkers that are set up, those of other users, and one for each teardown that has
failed. When the last one lets go of a checker, no client is left under its name. Its slot is given
back if and only if there was such a client before, and the answer says so; no other slot is
touched. -/
theorem slot_returned_iff {h : Host} (hclients : h.clients = []) (htaken : h.taken = [])
    (hs : Suffers (start h configs) lost s) :
    s.host.taken.Nodup ∧ s.host.taken.Perm (s.live.map (·.slot) ++ (lost ++ s.others))
    ∧ s.host.slotsInUse = s.live.length + lost.length + s.others.length
    ∧ ∀ a ∈ s.activations, a.count = 1 → ∃ c status h', a.checker = some c
      ∧ a.deactivate.Ends s.host (.ok (status, { a with count := 0, checker := none })) h'
      ∧ (status = .success ∨ status = .error)
      ∧ (status = .success ↔ ∃ r ∈ s.host.clients, r.priority.name = c.priority.name)
      ∧ (c.slot ∉ h'.taken ↔ status = .success)
      ∧ (∀ k, k ≠ c.slot → (k ∈ h'.taken ↔ k ∈ s.host.taken))
      ∧ ∀ r ∈ h'.clients, r.priority.name ≠ c.priority.name := by
  have hbal := Balanced.suffers hclients htaken hs
  refine ⟨hbal.lends.nodup, hbal.lends.slots, ?_, fun a ha hcount => ?_⟩
  · rw [hbal.lends.slotsInUse, List.length_append, Nat.add_assoc]
  obtain ⟨c, hc⟩ := (hbal.matched a ha).exists_checker (by omega)
  have hk := hbal.mem_taken ha hc
  obtain ⟨hsuccess, herror⟩ := Activation.deactivate_ends_last hcount hc hk
  by_cases hnamed : ∃ r ∈ s.host.clients, r.priority.name = c.priority.name
  · refine ⟨c, _, _, hc, hsuccess hnamed, .inl rfl, iff_of_true rfl hnamed, ?_, ?_, ?_⟩
    · exact iff_of_true hbal.lends.nodup.not_mem_erase rfl
    · exact fun k hne => List.mem_erase_of_ne hne
    · intro r hr
      simpa using (List.mem_filter.1 hr).2
  · refine ⟨c, _, _, hc, herror hnamed, .inr rfl, iff_of_false nofun hnamed, ?_, ?_, ?_⟩
    · exact iff_of_false (not_not_intro hk) nofun
    · exact fun _ _ => Iff.rfl
    · exact fun r hr heq => hnamed ⟨r, hr, heq⟩

/-- Someone else has struck the client of the first checker off. -/
def orphaned : Site where
  host := ((Checker.first.settle Host.new).removeClient "statecmp").2
  activations := [⟨.new .x64, 1, some Checker.first⟩]
  others := []

theorem suffers_orphaned : Suffers (start Host.new [.new .x64]) [] orphaned := by
  have hfirst : (start Host.new [.new .x64]).activations = [] ++ .new (.new .x64) :: [] := rfl
  have hset : Suffers (start Host.new [.new .x64]) []
      ⟨Checker.first.settle Host.new, [⟨.new .x64, 1, some Checker.first⟩], []⟩ :=
    .activate .refl hfirst (Activation.activate_ends_ok rfl Checker.first_ends)
  exact .removeClient hset "statecmp"

theorem slot_returned_iff_orphaned : ∃ h',
    (Activation.mk (.new .x64) 1 (some .first)).deactivate.Ends orphaned.host
      (.ok (.error, ⟨.new .x64, 0, none⟩)) h' ∧ 0 ∈ h'.taken := by
  obtain ⟨-, -, -, hteardown⟩ := slot_returned_iff rfl rfl suffers_orphaned
  obtain ⟨c, status, h', hc, hends, hstatus, hnamed, hslot, -⟩ :=
    hteardown _ List.mem_cons_self rfl
  obtain rfl := Option.some.inj hc
  have hnot : status ≠ .success := by
    rw [Ne, hnamed]
    rintro ⟨r, hr, -⟩
    cases hr
  obtain rfl := hstatus.resolve_left hnot
  exact ⟨h', hends, Classical.not_not.1 (mt hslot.1 hnot)⟩

/-- A teardown that fails need not give the slot back. -/
theorem failed_teardown_keeps_slot : ¬∀ (configs : List Config) (lost : List Nat) (s : Site),
    Suffers (start Host.new configs) lost s →
    ∀ a ∈ s.activations, a.count = 1 → ∀ c, a.checker = some c →
      ∀ status a' h', a.deactivate.Ends s.host (.ok (status, a')) h' → c.slot ∉ h'.taken := by
  intro hall
  have hends : (Activation.mk (.new .x64) 1 (some .first)).deactivate.Ends orphaned.host
      (.ok (.error, ⟨.new .x64, 0, none⟩)) orphaned.host :=
    Activation.deactivate_ends_error rfl rfl (Checker.unregister_ends_notHeld nofun)
  have hnot := hall _ _ _ suffers_orphaned _ List.mem_cons_self rfl _ rfl _ _ _ hends
  exact hnot List.mem_cons_self

end Site

end Rerun
