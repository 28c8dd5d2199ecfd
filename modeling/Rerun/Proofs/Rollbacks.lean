import Rerun.Proofs.Sites

/-!
# A set-up that fails is undone

Three things can be missing when a checker is asked for: a storage slot (`Host.Full`), notes
(`Host.notesLeft`), and a place among the clients (`Host.TurnsAway`). The set-up fails exactly if
one of them is, whatever else the host has given away, and then the host keeps nothing of it but
the notes, if it came that far (`Activation.activate_all_or_nothing`).
-/

namespace Rerun

open Rerun.Action

namespace Host

variable {h : Host} {k : Nat} {r : Registration}

/-- No storage slot is free. -/
def Full (h : Host) : Prop := ∀ k < h.slotCount, k ∈ h.taken

/-- How many notes can still be handed out. -/
def notesLeft (h : Host) : Nat := h.noteEnd.toNat - h.nextNote.toNat

/-- A client of the name is not let in: no client is, or another one has the name. -/
def TurnsAway (h : Host) (name : String) : Prop :=
  h.rejecting = true ∨ ∃ r ∈ h.clients, r.priority.name = name

/-- There are more slots below `n + 1` than `n` slots in use can take up. -/
theorem exists_not_mem_taken (h : Host) : ∃ k < h.taken.length + 1, k ∉ h.taken := by
  refine Classical.byContradiction fun hall => ?_
  have hsub : List.range (h.taken.length + 1) ⊆ h.taken := fun k hk =>
    Classical.byContradiction fun hfree => hall ⟨k, List.mem_range.1 hk, hfree⟩
  have hle := List.nodup_range.length_le_of_subset hsub
  rw [List.length_range] at hle
  omega

theorem freeSlot?_eq_none_iff : h.freeSlot? = none ↔ h.Full := by
  have hnone : h.freeSlot? = none ↔ ∀ k < min h.slotCount (h.taken.length + 1), k ∈ h.taken := by
    simp [freeSlot?]
  rw [hnone]
  constructor
  · intro hall k hk
    obtain ⟨j, hj, hfree⟩ := h.exists_not_mem_taken
    -- a slot that is looked at and not in use would have been found
    have hout : ¬j < h.slotCount := fun hlt => hfree (hall j (by omega))
    exact hall k (by omega)
  · exact fun hfull k hk => hfull k (by omega)

theorem not_full_of_freeSlot? (hk : h.freeSlot? = some k) : ¬h.Full := by
  rw [← freeSlot?_eq_none_iff, hk]
  nofun

/-- The first free slot is found. -/
theorem freeSlot?_eq_some (hk : h.freeSlot? = some k) :
    k < h.slotCount ∧ k ∉ h.taken ∧ ∀ j < k, j ∈ h.taken := by
  have hfound := hk
  rw [freeSlot?, List.find?_range_eq_some] at hfound
  obtain ⟨hfree, hlt, hbefore⟩ := hfound
  rw [List.mem_range] at hlt
  refine ⟨by omega, not_mem_of_freeSlot? hk, fun j hj => ?_⟩
  simpa using hbefore j hj

theorem hasNotes_count_iff :
    h.HasNotes (BitVec.ofNat 64 Markers.count) ↔ Markers.count ≤ h.notesLeft := by
  have hcount : (BitVec.ofNat 64 Markers.count).toNat = Markers.count := rfl
  have hpos : 0 < Markers.count := by decide
  rw [HasNotes, notesLeft, hcount]
  omega

theorem refuses_iff : h.Refuses r ↔ h.TurnsAway r.priority.name := by
  simp [Refuses, TurnsAway]

/-- A new client comes between two of the others. -/
theorem place_eq_append (r : Registration) (clients : List Registration) :
    ∃ pre post, clients = pre ++ post ∧ place r clients = pre ++ r :: post := by
  induction clients with
  | nil => exact ⟨[], [], rfl, rfl⟩
  | cons x rest ih =>
    rw [place]
    split
    · exact ⟨[], x :: rest, rfl, rfl⟩
    · obtain ⟨pre, post, hrest, hplace⟩ := ih
      exact ⟨x :: pre, post, congrArg (x :: ·) hrest, congrArg (x :: ·) hplace⟩

end Host

namespace Checker

open Host

variable {config : Config} {h : Host}

/-- A set-up to which something is missing takes nothing but notes, and none if the slot or the
notes are missing. -/
theorem register_undone (hlack : h.Full ∨ h.notesLeft < Markers.count
      ∨ h.TurnsAway config.priority.name) :
    ∃ e h', (register config).Ends h (.ok (.error e)) h' ∧ h' = { h with nextNote := h'.nextNote }
      ∧ (h.Full ∨ h.notesLeft < Markers.count → h'.nextNote = h.nextNote)
      ∧ (¬(h.Full ∨ h.notesLeft < Markers.count) →
        h'.nextNote.toNat = h.nextNote.toNat + Markers.count) := by
  rcases hk : h.freeSlot? with _ | k
  · have hfull : h.Full := freeSlot?_eq_none_iff.1 hk
    exact ⟨_, _, register_ends_noSlot hk, rfl, fun _ => rfl, fun hnot => absurd (.inl hfull) hnot⟩
  have hnotFull : ¬h.Full := not_full_of_freeSlot? hk
  by_cases hn : h.HasNotes (BitVec.ofNat 64 Markers.count)
  · have hleft : ¬h.notesLeft < Markers.count := Nat.not_lt.2 (hasNotes_count_iff.1 hn)
    have haway : h.TurnsAway config.priority.name :=
      (hlack.resolve_left hnotFull).resolve_left hleft
    refine ⟨_, _, register_ends_clientRefused hk hn (refuses_iff.2 haway), rfl, fun hor => ?_,
      fun _ => toNat_nextNote_add hn⟩
    exact absurd hor (not_or_intro hnotFull hleft)
  · have hleft : h.notesLeft < Markers.count :=
      Nat.not_le.1 fun hle => hn (hasNotes_count_iff.2 hle)
    exact ⟨_, _, register_ends_notesExhausted hk hn, rfl, fun _ => rfl,
      fun hnot => absurd (.inr hleft) hnot⟩

/-- A set-up to which nothing is missing takes the first free slot and three notes, and adds one
client. -/
theorem register_whole (hlack : ¬(h.Full ∨ h.notesLeft < Markers.count
      ∨ h.TurnsAway config.priority.name)) :
    ∃ c h' pre post, (register config).Ends h (.ok (.ok c)) h'
      ∧ c = ⟨⟨h.nextNote⟩, c.slot, config.priority, config.arch⟩
      ∧ c.slot < h.slotCount ∧ c.slot ∉ h.taken ∧ (∀ k < c.slot, k ∈ h.taken)
      ∧ h.clients = pre ++ post
      ∧ h' = { h with
          nextNote := h'.nextNote
          taken := c.slot :: h.taken
          clients := pre ++ c.registration :: post }
      ∧ h'.nextNote.toNat = h.nextNote.toNat + Markers.count := by
  obtain ⟨hfull, hleft, haway⟩ : ¬h.Full ∧ ¬h.notesLeft < Markers.count
      ∧ ¬h.TurnsAway config.priority.name := by
    rwa [not_or, not_or] at hlack
  obtain ⟨k, hk⟩ := Option.ne_none_iff_exists'.1 fun hk => hfull (freeSlot?_eq_none_iff.1 hk)
  have hn : h.HasNotes (BitVec.ofNat 64 Markers.count) := hasNotes_count_iff.2 (Nat.not_lt.1 hleft)
  have hr : ¬h.Refuses (offered config h k).registration := fun hr => haway (refuses_iff.1 hr)
  obtain ⟨hlt, hfree, hfirst⟩ := freeSlot?_eq_some hk
  obtain ⟨pre, post, hclients, hplace⟩ :=
    place_eq_append (offered config h k).registration h.clients
  refine ⟨_, _, pre, post, register_ends_ok hk hn hr, rfl, hlt, hfree, hfirst, hclients, ?_,
    toNat_nextNote_add hn⟩
  rw [← hplace]
  rfl

end Checker

namespace Activation

open Host

variable {a : Activation}

/-- Asking for a checker that is not there fails exactly if there is no free slot, or fewer than
three notes are left, or its client is turned away. If it fails, the count, the host's slots and its
clients are as before, and three notes are gone if the slot and the notes were there. If it does
not, the host has given away the first free slot and three notes, and has one client more. -/
theorem activate_all_or_nothing (ha : a.count = 0) (h : Host) :
    ∃ status a' h', a.activate.Ends h (.ok (status, a')) h'
      ∧ (status = .error ↔
        h.Full ∨ h.notesLeft < Markers.count ∨ h.TurnsAway a.config.priority.name)
      ∧ (status = .error → a' = a ∧ h' = { h with nextNote := h'.nextNote }
        ∧ (h.Full ∨ h.notesLeft < Markers.count → h'.nextNote = h.nextNote)
        ∧ (¬(h.Full ∨ h.notesLeft < Markers.count) →
          h'.nextNote.toNat = h.nextNote.toNat + Markers.count))
      ∧ (status ≠ .error → status = .success
        ∧ ∃ c pre post, a' = { a with count := 1, checker := some c }
          ∧ c = ⟨⟨h.nextNote⟩, c.slot, a.config.priority, a.config.arch⟩
          ∧ c.slot < h.slotCount ∧ c.slot ∉ h.taken ∧ (∀ k < c.slot, k ∈ h.taken)
          ∧ h.clients = pre ++ post
          ∧ h' = { h with
              nextNote := h'.nextNote
              taken := c.slot :: h.taken
              clients := pre ++ c.registration :: post }
          ∧ h'.nextNote.toNat = h.nextNote.toNat + Markers.count) := by
  by_cases hlack : h.Full ∨ h.notesLeft < Markers.count ∨ h.TurnsAway a.config.priority.name
  · obtain ⟨e, h', hends, hsame, hkept, hspent⟩ := Checker.register_undone hlack
    exact ⟨_, _, h', activate_ends_error ha hends, iff_of_true rfl hlack,
      fun _ => ⟨rfl, hsame, hkept, hspent⟩, fun hne => absurd rfl hne⟩
  · obtain ⟨c, h', pre, post, hends, hwhole⟩ := Checker.register_whole hlack
    exact ⟨_, _, h', activate_ends_ok ha hends, iff_of_false nofun hlack, nofun,
      fun _ => ⟨rfl, c, pre, post, rfl, hwhole⟩⟩

/-- A host on which another checker has the name, and of whose slots the second one is free. -/
def contested : Host :=
  { Host.new with taken := [0, 2], clients := [Checker.first.registration] }

theorem activate_all_or_nothing_contested :
    (new (.new .x64)).activate.Ends contested (.ok (.error, new (.new .x64)))
      { contested with nextNote := 0x1003 } := by
  obtain ⟨status, a', h', hends, hstatus, herror, -⟩ :=
    activate_all_or_nothing (a := new (.new .x64)) rfl contested
  obtain rfl := hstatus.2 (.inr (.inr (.inr ⟨_, List.mem_cons_self, rfl⟩)))
  obtain ⟨rfl, hh', -, hnotes⟩ := herror rfl
  have hfree : ¬(contested.Full ∨ contested.notesLeft < Markers.count) := by
    rintro (hfull | hleft)
    · exact absurd (hfull 1 (by decide)) (by decide)
    · exact absurd hleft (by decide)
  have hnext : h'.nextNote = 0x1003 := BitVec.eq_of_toNat_eq (hnotes hfree)
  rw [hh', hnext] at hends
  exact hends

end Activation

end Rerun
