import Rerun.Protocol
import Rerun.Proofs.Actions

/-!
# Saving, rewinding and comparing

On a thread that holds a pair of snapshots, each call of a checked block does one thing: it
overwrites one half of the pair (`save_ends`), or the registers (`restore_ends`), or ends with a
fault if the first field on which two register files differ exists (`compare_ends`).
-/

namespace Rerun

namespace Arch

variable {arch : Arch} {a b : RegisterFile} {m : Mismatch}

/-! ## The first difference -/

theorem compare_eq_none_iff :
    arch.compare a b = none ↔ ∀ f ∈ arch.schema, f.agrees arch a b := by
  rw [compare, Option.map_eq_none_iff, List.find?_eq_none]
  simp

/-- The field that is named is the first one on which the two differ. -/
theorem compare_eq_some_iff :
    arch.compare a b = some m ↔ ∃ pre f post, arch.schema = pre ++ f :: post
      ∧ (∀ g ∈ pre, g.agrees arch a b) ∧ f.agrees arch a b = false ∧ f.mismatch arch a b = m := by
  rw [compare, Option.map_eq_some_iff]
  constructor
  · rintro ⟨f, hf, rfl⟩
    obtain ⟨hne, pre, post, hs, hpre⟩ := List.find?_eq_some_iff_append.1 hf
    exact ⟨pre, f, post, hs, by simpa using hpre, by simpa using hne, rfl⟩
  · rintro ⟨pre, f, post, hs, hpre, hne, rfl⟩
    refine ⟨f, List.find?_eq_some_iff_append.2 ⟨by simpa using hne, pre, post, hs, ?_⟩, rfl⟩
    simpa using hpre

/-- No two fields are about one slot, so none stands behind another. -/
theorem nodup_slots (arch : Arch) : (arch.schema.map (·.slot)).Nodup := by
  cases arch <;> decide +kernel

/-- A register file does not differ from itself. -/
theorem compare_self (arch : Arch) (a : RegisterFile) : arch.compare a a = none := by
  rw [compare_eq_none_iff]
  intro f _
  exact Field.agrees_iff.2 rfl

end Arch

namespace Storage

theorem setSlot_setSlot (storage : Storage) (k : Nat) (v w : Option Stored) :
    setSlot (setSlot storage k v) k w = setSlot storage k w := by
  have h : (setSlot storage k v).filter (fun entry => entry.1 ≠ k)
      = storage.filter (fun entry => entry.1 ≠ k) := by
    cases v <;> simp [setSlot]
  cases w with
  | none => exact h
  | some content => exact congrArg ((k, content) :: ·) h

end Storage

namespace Thread

open Rerun.Action

variable {t : Thread} {k : Nat} {pair : Snapshots} {arch : Arch} {m : Mismatch}

/-! ## The pair of a thread -/

/-- The thread with other snapshots. -/
def withSnapshots (t : Thread) (k : Nat) (pair : Snapshots) : Thread :=
  t.setSlot k (some (.snapshots pair))

theorem slot_setSlot (t : Thread) (k j : Nat) (v : Option Stored) :
    (t.setSlot k v).slot j = if j = k then v else t.slot j :=
  Storage.slot_setSlot _ _ _ _

@[simp] theorem snapshots?_withSnapshots (t : Thread) (k : Nat) (pair : Snapshots) :
    (t.withSnapshots k pair).snapshots? k = some pair := by
  rw [snapshots?, withSnapshots, slot_setSlot, if_pos rfl]

theorem slot_withSnapshots_of_ne {j : Nat} (h : j ≠ k) (t : Thread) (pair : Snapshots) :
    (t.withSnapshots k pair).slot j = t.slot j := by
  rw [withSnapshots, slot_setSlot, if_neg h]

theorem slot_eq_of_snapshots? (h : t.snapshots? k = some pair) :
    t.slot k = some (.snapshots pair) := by
  rw [snapshots?] at h
  split at h
  · next hslot => rw [hslot, Option.some.inj h]
  · cases h

theorem snapshots?_congr {u : Thread} (h : u.slot k = t.slot k) :
    u.snapshots? k = t.snapshots? k := by
  rw [snapshots?, snapshots?, h]

@[simp] theorem withSnapshots_withSnapshots (t : Thread) (k : Nat) (pair pair' : Snapshots) :
    (t.withSnapshots k pair).withSnapshots k pair' = t.withSnapshots k pair' := by
  simp only [withSnapshots, setSlot, Storage.setSlot_setSlot]

theorem setRegisters_withSnapshots (t : Thread) (k : Nat) (pair : Snapshots) (file : RegisterFile) :
    (t.setRegisters file).withSnapshots k pair = (t.withSnapshots k pair).setRegisters file := rfl

theorem store_ends {v held : Option Stored} {u : Thread} (h : (store k v).Ends t (.ok held) u) :
    held = t.slot k ∧ u = t.setSlot k v := by
  unfold store at h
  dsimp only at h
  split at h
  · obtain ⟨_, _, hfail, -⟩ := h.of_bind
    cases (Ends.unique hfail (ends_fail _ _)).1
  split at h
  · obtain ⟨_, _, hfail, -⟩ := h.of_bind
    cases (Ends.unique hfail (ends_fail _ _)).1
  obtain ⟨hr, rfl⟩ := Ends.unique h (ends_modifyGet rfl)
  exact ⟨Except.ok.inj hr, rfl⟩

/-- A thread that is given a pair had an empty slot. -/
theorem allocate_ends {u : Thread} (h : (allocate k).Ends t (.ok ()) u) :
    t.slot k = none ∧ u = t.withSnapshots k .zero := by
  obtain ⟨_, _, hget, hrest⟩ := h.of_bind
  obtain ⟨-, rfl⟩ := Ends.unique hget (ends_get _)
  obtain ⟨_, _, hstore, hcheck⟩ := hrest.of_bind
  obtain ⟨rfl, rfl⟩ := store_ends hstore
  dsimp only at hcheck
  split at hcheck
  · obtain ⟨_, _, hfail, -⟩ := hcheck.of_bind
    cases (Ends.unique hfail (ends_fail _ _)).1
  · next hnone =>
    obtain ⟨-, rfl⟩ := Ends.unique hcheck (ends_say _ _ _ _)
    exact ⟨by simpa using hnone, rfl⟩

theorem snapshots_ends (h : t.snapshots? k = some pair) : (snapshots k).Ends t (.ok pair) t := by
  refine (ends_get t).bind ?_
  rw [h]
  exact ends_pure _ _

theorem setSnapshots_ends (h : t.snapshots? k = some pair) (pair' : Snapshots) :
    (setSnapshots k pair').Ends t (.ok ()) (t.withSnapshots k pair') :=
  (snapshots_ends h).bind (ends_modify _ _)

/-! ## The calls -/

theorem save_ends (h : t.snapshots? k = some pair) (forCompare : Bool) :
    (save k forCompare).Ends t (.ok ()) (t.withSnapshots k
      (if forCompare then { pair with forCompare := t.registers }
        else { pair with forRestore := t.registers })) :=
  (ends_get t).bind ((ends_say _ _ _ _).bind ((snapshots_ends h).bind (setSnapshots_ends h _)))

theorem restore_ends (h : t.snapshots? k = some pair) :
    (restore k).Ends t (.ok ()) (t.setRegisters pair.forRestore) :=
  (ends_get t).bind ((ends_say _ _ _ _).bind ((snapshots_ends h).bind (ends_modify _ _)))

/-- A comparison changes nothing; it ends with a fault if there is a difference. -/
theorem compare_ends (ha : t.arch = arch) (h : t.snapshots? k = some pair) :
    (compare k arch).Ends t (match arch.compare pair.forCompare t.registers with
      | none => .ok ()
      | some m => .error (.mismatch m)) t := by
  refine (ends_get t).bind ?_
  rw [if_neg (not_not_intro ha)]
  refine (snapshots_ends h).bind ?_
  cases arch.compare pair.forCompare t.registers with
  | none => exact ends_pure _ _
  | some m => exact (ends_say _ _ _ _).bind (ends_fail _ _)

theorem compare_ends_ok (ha : t.arch = arch) (h : t.snapshots? k = some pair)
    (hnone : arch.compare pair.forCompare t.registers = none) :
    (compare k arch).Ends t (.ok ()) t := by
  have hends := compare_ends ha h
  rwa [hnone] at hends

theorem compare_ends_error (ha : t.arch = arch) (h : t.snapshots? k = some pair)
    (hm : arch.compare pair.forCompare t.registers = some m) :
    (compare k arch).Ends t (.error (.mismatch m)) t := by
  have hends := compare_ends ha h
  rwa [hm] at hends

end Thread

end Rerun
