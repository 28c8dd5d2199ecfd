import Rerun.Activation
import Rerun.Proofs.Edits

/-!
# Setting a checker up and taking it down

A checker is set up if the host has a slot and three notes left and takes one more client; then the
host has given away these three things and nothing else (`register_ends_ok`). In any other case
there is no checker, and the host has given away notes at most (`register_cases`). A checker whose
client and slot the host still has is taken down, and gives both back (`unregister_ends_ok`).
-/

namespace Rerun

namespace Host

variable {h : Host} {k : Nat} {count : Word} {r : Registration}

/-- There are `count` notes left. -/
def HasNotes (h : Host) (count : Word) : Prop := h.nextNote.toNat + count.toNat ≤ h.noteEnd.toNat

/-- The client of a registration is turned away. -/
def Refuses (h : Host) (r : Registration) : Prop :=
  h.rejecting || h.clients.any (·.priority.name == r.priority.name)

theorem takeSlot_of_freeSlot? (hk : h.freeSlot? = some k) :
    h.takeSlot = (some k, { h with taken := k :: h.taken }) := by
  rw [takeSlot, hk]

theorem takeSlot_of_no_freeSlot? (hk : h.freeSlot? = none) : h.takeSlot = (none, h) := by
  rw [takeSlot, hk]

theorem reserveNotes_of_hasNotes (hn : h.HasNotes count) :
    h.reserveNotes count = (some h.nextNote,
      { h with nextNote := BitVec.ofNat 64 (h.nextNote.toNat + count.toNat) }) :=
  if_pos hn

theorem reserveNotes_of_not_hasNotes (hn : ¬h.HasNotes count) :
    h.reserveNotes count = (none, h) :=
  if_neg hn

theorem addClient_of_not_refuses (hr : ¬h.Refuses r) :
    h.addClient r = (true, { h with clients := place r h.clients }) :=
  if_neg hr

theorem addClient_of_refuses (hr : h.Refuses r) : h.addClient r = (false, h) :=
  if_pos hr

theorem addClient_eq_true {h' : Host} (hadd : h.addClient r = (true, h')) :
    h' = { h with clients := place r h.clients } := by
  by_cases hr : h.Refuses r
  · rw [addClient_of_refuses hr] at hadd
    cases hadd
  · rw [addClient_of_not_refuses hr] at hadd
    exact (Prod.mk.inj hadd).2.symm

theorem not_mem_of_freeSlot? (hk : h.freeSlot? = some k) : k ∉ h.taken := by
  have hfree := List.find?_some hk
  simpa using hfree

/-- A new client joins the others, wherever it is placed. -/
theorem place_perm (r : Registration) (clients : List Registration) :
    (place r clients).Perm (r :: clients) := by
  induction clients with
  | nil => exact List.Perm.refl _
  | cons x rest ih =>
    rw [place]
    split
    · exact List.Perm.refl _
    · exact (ih.cons x).trans (List.Perm.swap r x rest)

theorem name_ne_of_not_refuses (hr : ¬h.Refuses r) {x : Registration} (hx : x ∈ h.clients) :
    x.priority.name ≠ r.priority.name := by
  intro heq
  refine hr ?_
  rw [Refuses, Bool.or_eq_true, List.any_eq_true]
  exact .inr ⟨x, hx, beq_iff_eq.2 heq⟩

theorem removeClient_of_mem (hr : r ∈ h.clients) :
    h.removeClient r.priority.name
      = (true, { h with clients := h.clients.filter (·.priority.name != r.priority.name) }) := by
  have hlt : (h.clients.filter (·.priority.name != r.priority.name)).length ≠ h.clients.length := by
    rw [Ne, List.length_filter_eq_length_iff]
    intro hall
    have := hall r hr
    simp at this
  rw [removeClient, bne_iff_ne.2 hlt]

theorem removeClient_of_forall_ne {name : String}
    (hne : ∀ r ∈ h.clients, r.priority.name ≠ name) : h.removeClient name = (false, h) := by
  have hall : h.clients.filter (·.priority.name != name) = h.clients :=
    List.filter_eq_self.2 fun r hr => bne_iff_ne.2 (hne r hr)
  rw [removeClient, hall, bne_self_eq_false]

theorem releaseSlot_of_mem (hk : k ∈ h.taken) :
    h.releaseSlot k = (true, { h with taken := h.taken.erase k }) :=
  if_pos (List.contains_iff_mem.2 hk)

/-- Taking the newest slot back undoes that it was given away. -/
theorem releaseSlot_cons (h : Host) (k : Nat) :
    ({ h with taken := k :: h.taken } : Host).releaseSlot k = (true, h) := by
  simp [releaseSlot]

end Host

namespace Markers

open Rerun.Action

variable {h : Host}

theorem reserve_ends_ok (hn : h.HasNotes (BitVec.ofNat 64 count)) :
    reserve.Ends h (.ok (.ok ⟨h.nextNote⟩))
      { h with nextNote := BitVec.ofNat 64 (h.nextNote.toNat + count) } := by
  rw [reserve]
  refine (ends_modifyGet (Host.reserveNotes_of_hasNotes hn)).bind ?_
  exact (ends_say _ _ _ _).bind (ends_pure _ _)

theorem reserve_ends_error (hn : ¬h.HasNotes (BitVec.ofNat 64 count)) :
    reserve.Ends h (.ok (.error (.notesExhausted count))) h := by
  rw [reserve]
  refine (ends_modifyGet (Host.reserveNotes_of_not_hasNotes hn)).bind ?_
  exact ends_pure _ _

end Markers

namespace Checker

open Rerun.Action

variable {config : Config} {h h' : Host} {c : Checker} {k : Nat}

/-- A checker that some host has set up. -/
def Registered (c : Checker) : Prop := ∃ config h, (register config h).result = .ok (.ok c)

/-- The registration of a checker. -/
def registration (c : Checker) : Registration := ⟨c.priority, c.client⟩

/-- The host after a checker has been set up on it. -/
def settle (c : Checker) (h : Host) : Host :=
  { h with
    nextNote := BitVec.ofNat 64 (h.nextNote.toNat + Markers.count)
    taken := c.slot :: h.taken
    clients := Host.place c.registration h.clients }

/-- The checker that a host with a slot and notes left would set up. -/
def offered (config : Config) (h : Host) (k : Nat) : Checker :=
  ⟨⟨h.nextNote⟩, k, config.priority, config.arch⟩

theorem register_ends_noSlot (hk : h.freeSlot? = none) :
    (register config).Ends h (.ok (.error .noSlot)) h := by
  rw [register]
  refine (ends_modifyGet (Host.takeSlot_of_no_freeSlot? hk)).bind ?_
  exact ends_pure _ _

theorem register_ends_notesExhausted (hk : h.freeSlot? = some k)
    (hn : ¬h.HasNotes (BitVec.ofNat 64 Markers.count)) :
    (register config).Ends h (.ok (.error (.notesExhausted Markers.count))) h := by
  rw [register]
  refine (ends_modifyGet (Host.takeSlot_of_freeSlot? hk)).bind ?_
  refine (Markers.reserve_ends_error (h := { h with taken := k :: h.taken }) hn).bind ?_
  refine (ends_modifyGet (Host.releaseSlot_cons h k)).bind ?_
  exact ends_pure _ _

theorem register_ends_clientRefused (hk : h.freeSlot? = some k)
    (hn : h.HasNotes (BitVec.ofNat 64 Markers.count))
    (hr : h.Refuses (offered config h k).registration) :
    (register config).Ends h (.ok (.error (.clientRefused config.priority.name)))
      { h with nextNote := BitVec.ofNat 64 (h.nextNote.toNat + Markers.count) } := by
  rw [register]
  refine (ends_modifyGet (Host.takeSlot_of_freeSlot? hk)).bind ?_
  refine (Markers.reserve_ends_ok (h := { h with taken := k :: h.taken }) hn).bind ?_
  refine (ends_modifyGet (Host.addClient_of_refuses (h := { h with
    nextNote := BitVec.ofNat 64 (h.nextNote.toNat + Markers.count)
    taken := k :: h.taken }) hr)).bind ?_
  refine (ends_modifyGet (Host.releaseSlot_cons
    { h with nextNote := BitVec.ofNat 64 (h.nextNote.toNat + Markers.count) } k)).bind ?_
  exact ends_pure _ _

theorem register_ends_ok (hk : h.freeSlot? = some k)
    (hn : h.HasNotes (BitVec.ofNat 64 Markers.count))
    (hr : ¬h.Refuses (offered config h k).registration) :
    (register config).Ends h (.ok (.ok (offered config h k)))
      ((offered config h k).settle h) := by
  rw [register]
  refine (ends_modifyGet (Host.takeSlot_of_freeSlot? hk)).bind ?_
  refine (Markers.reserve_ends_ok (h := { h with taken := k :: h.taken }) hn).bind ?_
  refine (ends_modifyGet (Host.addClient_of_not_refuses (h := { h with
    nextNote := BitVec.ofNat 64 (h.nextNote.toNat + Markers.count)
    taken := k :: h.taken }) hr)).bind ?_
  exact (ends_say _ _ _ _).bind (ends_pure _ _)

/-- Whatever happens, nothing is given away but notes, or a checker is set up. -/
theorem register_cases (config : Config) (h : Host) :
    (∃ e h', (register config).Ends h (.ok (.error e)) h'
        ∧ (h' = h ∨ h.HasNotes (BitVec.ofNat 64 Markers.count)
          ∧ h' = { h with nextNote := BitVec.ofNat 64 (h.nextNote.toNat + Markers.count) }))
      ∨ ∃ k, h.freeSlot? = some k ∧ h.HasNotes (BitVec.ofNat 64 Markers.count)
        ∧ ¬h.Refuses (offered config h k).registration
        ∧ (register config).Ends h (.ok (.ok (offered config h k)))
          ((offered config h k).settle h) := by
  rcases hk : h.freeSlot? with _ | k
  · exact .inl ⟨_, _, register_ends_noSlot hk, .inl rfl⟩
  by_cases hn : h.HasNotes (BitVec.ofNat 64 Markers.count)
  · by_cases hr : h.Refuses (offered config h k).registration
    · exact .inl ⟨_, _, register_ends_clientRefused hk hn hr, .inr ⟨hn, rfl⟩⟩
    · exact .inr ⟨k, rfl, hn, hr, register_ends_ok hk hn hr⟩
  · exact .inl ⟨_, _, register_ends_notesExhausted hk hn, .inl rfl⟩

theorem register_result_eq_ok (hc : (register config h).result = .ok (.ok c)) :
    h.freeSlot? = some c.slot ∧ h.HasNotes (BitVec.ofNat 64 Markers.count)
      ∧ ¬h.Refuses c.registration ∧ c = offered config h c.slot := by
  rcases register_cases config h with ⟨e, h', hends, -⟩ | ⟨k, hk, hn, hr, hends⟩
  · rw [hends.1] at hc
    cases hc
  · rw [hends.1] at hc
    cases hc
    exact ⟨hk, hn, hr, rfl⟩

theorem register_ends (hc : (register config).Ends h (.ok (.ok c)) h') :
    c.arch = config.arch ∧ h' = c.settle h := by
  obtain ⟨hk, hn, hr, heq⟩ := register_result_eq_ok hc.1
  rw [heq] at hr
  obtain ⟨-, rfl⟩ := Ends.unique hc (register_ends_ok hk hn hr)
  exact ⟨congrArg Checker.arch heq, by rw [← heq]⟩

/-- The notes of a checker come from below the host's end of notes. -/
theorem Registered.fits (hc : c.Registered) : c.markers.Fits := by
  obtain ⟨config, h, hc⟩ := hc
  obtain ⟨-, hn, -, heq⟩ := register_result_eq_ok hc
  rw [heq]
  exact Nat.le_trans hn (Nat.le_of_lt h.noteEnd.isLt)

/-- The host after a checker has been taken down. -/
def dismiss (c : Checker) (h : Host) : Host :=
  { h with
    taken := h.taken.erase c.slot
    clients := h.clients.filter (·.priority.name != c.priority.name) }

/-- Any client that has the name of the checker is taken for its own. -/
theorem unregister_ends_named {r : Registration} (hr : r ∈ h.clients)
    (hname : r.priority.name = c.priority.name) (hk : c.slot ∈ h.taken) :
    c.unregister.Ends h (.ok (.ok ())) (c.dismiss h) := by
  have hremove := Host.removeClient_of_mem hr
  rw [hname] at hremove
  rw [unregister]
  refine (ends_modifyGet (g := (Host.removeClient · c.priority.name)) hremove).bind ?_
  refine (ends_modifyGet (Host.releaseSlot_of_mem (h := { h with
    clients := h.clients.filter (·.priority.name != c.priority.name) }) hk)).bind ?_
  exact (ends_say _ _ _ _).bind (ends_pure _ _)

theorem unregister_ends_ok (hr : c.registration ∈ h.clients) (hk : c.slot ∈ h.taken) :
    c.unregister.Ends h (.ok (.ok ())) (c.dismiss h) :=
  unregister_ends_named hr rfl hk

/-- Without a client of the name, the slot is not given back. -/
theorem unregister_ends_notHeld (hne : ∀ r ∈ h.clients, r.priority.name ≠ c.priority.name) :
    c.unregister.Ends h (.ok (.error (.notHeld .client))) h := by
  rw [unregister]
  refine (ends_modifyGet (g := (Host.removeClient · c.priority.name))
    (Host.removeClient_of_forall_ne hne)).bind ?_
  exact ends_pure _ _

/-- The first checker on a new host. -/
def first : Checker := offered (Config.new .x64) Host.new 0

theorem first_ends : (register (Config.new .x64)).Ends Host.new (.ok (.ok first))
    (first.settle Host.new) := by
  refine register_ends_ok (by decide) ?_ ?_
  · unfold Host.HasNotes
    decide
  · unfold Host.Refuses
    decide

theorem registered_first : first.Registered := ⟨_, _, first_ends.1⟩

end Checker

namespace Activation

open Rerun.Action

variable {a : Activation} {h h' : Host} {c : Checker}

theorem activate_ends_again (ha : a.count ≠ 0) :
    a.activate.Ends h (.ok (.alreadyInitialized, { a with count := a.count + 1 })) h := by
  rw [activate, if_pos ha]
  exact ends_pure _ _

theorem activate_ends_ok (ha : a.count = 0)
    (hr : (Checker.register a.config).Ends h (.ok (.ok c)) h') :
    a.activate.Ends h (.ok (.success, { a with count := 1, checker := some c })) h' := by
  rw [activate, if_neg (not_not_intro ha)]
  exact hr.bind (ends_pure _ _)

theorem activate_ends_error {e : SetupError} (ha : a.count = 0)
    (hr : (Checker.register a.config).Ends h (.ok (.error e)) h') :
    a.activate.Ends h (.ok (.error, a)) h' := by
  rw [activate, if_neg (not_not_intro ha)]
  exact hr.bind ((ends_say _ _ _ _).bind (ends_pure _ _))

theorem deactivate_ends_idle (ha : a.count = 0) :
    a.deactivate.Ends h (.ok (.notInitialized, a)) h := by
  rw [deactivate, if_pos ha]
  exact ends_pure _ _

theorem deactivate_ends_shared (ha : 1 < a.count) :
    a.deactivate.Ends h (.ok (.notInitialized, { a with count := a.count - 1 })) h := by
  have hne : a.count ≠ 0 := by omega
  have hne' : a.count - 1 ≠ 0 := by omega
  rw [deactivate, if_neg hne, if_pos hne']
  exact ends_pure _ _

theorem deactivate_ends_ok (ha : a.count = 1) (hc : a.checker = some c)
    (hu : c.unregister.Ends h (.ok (.ok ())) h') :
    a.deactivate.Ends h (.ok (.success, { a with count := 0, checker := none })) h' := by
  have hne : a.count ≠ 0 := by omega
  rw [deactivate, if_neg hne]
  simp only [ha, hc, Nat.sub_self, ne_eq, not_true_eq_false, ↓reduceIte]
  exact hu.bind (ends_pure _ _)

theorem deactivate_ends_error {e : SetupError} (ha : a.count = 1) (hc : a.checker = some c)
    (hu : c.unregister.Ends h (.ok (.error e)) h') :
    a.deactivate.Ends h (.ok (.error, { a with count := 0, checker := none })) h' := by
  have hne : a.count ≠ 0 := by omega
  rw [deactivate, if_neg hne]
  simp only [ha, hc, Nat.sub_self, ne_eq, not_true_eq_false, ↓reduceIte]
  exact hu.bind ((ends_say _ _ _ _).bind (ends_pure _ _))

/-- Only the first request sets a checker up. -/
theorem activate_ends_success {a a' : Activation} {h h' : Host}
    (hact : a.activate.Ends h (.ok (.success, a')) h') :
    a.count = 0 ∧ ∃ c, (Checker.register a.config).Ends h (.ok (.ok c)) h'
      ∧ a' = { a with count := 1, checker := some c } := by
  rw [activate] at hact
  split at hact
  · cases (Ends.unique hact (ends_pure _ _)).1
  · next hcount =>
    obtain ⟨r, s, hr, hact⟩ := hact.of_bind
    rcases r with e | c
    · obtain ⟨_, _, -, hact⟩ := hact.of_bind
      cases (Ends.unique hact (ends_pure _ _)).1
    · obtain ⟨heq, rfl⟩ := Ends.unique hact (ends_pure _ _)
      cases heq
      exact ⟨by simpa using hcount, c, hr, rfl⟩

end Activation

end Rerun
