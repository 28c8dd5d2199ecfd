import Rerun.RegisterFile

/-!
# Threads

A thread has a number, an architecture, its registers, and storage slots of its own. A slot is
empty, or holds the two register files that a checker keeps, or something that is not a
checker's.
-/

namespace Rerun

/-- The register files that a checked block keeps for its thread. -/
structure Snapshots where
  /-- The registers just before the instrumented run. -/
  forRestore : RegisterFile
  /-- The registers just after the instrumented run. -/
  forCompare : RegisterFile
deriving DecidableEq

namespace Snapshots

/-- Two register files of zeros. -/
def zero : Snapshots := ⟨.zero, .zero⟩

end Snapshots

/-- What a storage slot holds. -/
inductive Stored
  | snapshots (pair : Snapshots)
  | foreign
deriving DecidableEq

/-- The storage slots that hold something, by number; all others are empty. -/
abbrev Storage := List (Nat × Stored)

namespace Storage

/-- The content of a slot. -/
def slot (storage : Storage) (k : Nat) : Option Stored := storage.lookup k

/-- Replaces the content of a slot. -/
def setSlot (storage : Storage) (k : Nat) (v : Option Stored) : Storage :=
  let others := storage.filter fun entry => entry.1 ≠ k
  match v with
  | some content => (k, content) :: others
  | none => others

/-- The most slots that a thread can have: a slot takes sixteen bytes. -/
def capacity : Nat := memoryLimit / 16

@[simp] theorem slot_nil (k : Nat) : slot [] k = none := rfl

theorem slot_cons (entry : Nat × Stored) (rest : Storage) (j : Nat) :
    slot (entry :: rest) j = if j = entry.1 then some entry.2 else slot rest j := by
  rw [slot, List.lookup_cons]
  by_cases h : j = entry.1
  · simp [h]
  · simp [slot, h, beq_eq_false_iff_ne.2 h]

theorem slot_filter_ne (storage : Storage) (k j : Nat) :
    slot (storage.filter fun entry => entry.1 ≠ k) j
      = if j = k then none else slot storage j := by
  induction storage with
  | nil => simp
  | cons entry rest ih =>
    by_cases hk : entry.1 = k
    · rw [List.filter_cons_of_neg (by simp [hk]), ih, slot_cons]
      grind
    · rw [List.filter_cons_of_pos (by simp [hk]), slot_cons, slot_cons, ih]
      grind

theorem slot_setSlot (storage : Storage) (k j : Nat) (v : Option Stored) :
    slot (setSlot storage k v) j = if j = k then v else slot storage j := by
  cases v with
  | none => simp only [setSlot, slot_filter_ne]
  | some content =>
    simp only [setSlot, slot_cons, slot_filter_ne]
    grind

end Storage

/-- A thread. -/
structure Thread where
  id : Nat
  arch : Arch
  registers : RegisterFile
  storage : Storage
deriving DecidableEq

namespace Thread

/-- A thread that has done nothing yet. -/
def new (id : Nat) (arch : Arch) : Thread := ⟨id, arch, .zero, []⟩

/-- The content of a storage slot. -/
def slot (t : Thread) (k : Nat) : Option Stored := t.storage.slot k

/-- Replaces the content of a storage slot. -/
def setSlot (t : Thread) (k : Nat) (v : Option Stored) : Thread :=
  { t with storage := t.storage.setSlot k v }

/-- Replaces the registers. -/
def setRegisters (t : Thread) (file : RegisterFile) : Thread := { t with registers := file }

/-- The snapshots in a storage slot. -/
def snapshots? (t : Thread) (k : Nat) : Option Snapshots :=
  match t.slot k with
  | some (.snapshots pair) => some pair
  | _ => none

end Thread

end Rerun
