import Rerun.Action
import Rerun.Comparison
import Rerun.Thread

/-!
# Snapshots of a thread

A thread is given a pair of snapshots when it starts and gives it back when it ends. In between
the registers can be saved to either half of the pair, rewound to the first half, and compared
with the second.
-/

namespace Rerun.Thread

/-- What messages about a thread begin with. -/
def label (t : Thread) : String := "thread " ++ toString t.id ++ ": "

/-- Replaces the content of a slot and gives what it held. The slots of a thread are a table that
reaches to the highest one used, so the next number after `k` must be a word and the table must
fit into memory. -/
def store (k : Nat) (v : Option Stored) : Action Thread (Option Stored) := do
  if Word.count ≤ k + 1 then Action.fail .addOverflow
  if Storage.capacity < k + 1 then Action.fail .tableTooLarge
  modifyGet fun t => (t.slot k, t.setSlot k v)

/-- Puts a pair of zeros into a slot. The slot should have been empty. -/
def allocate (k : Nat) : Action Thread Unit := do
  let before ← get
  let held ← store k (some (.snapshots .zero))
  if held.isSome then Action.fail .initializedTwice
  Action.say .trace .snapshots (before.label ++ "snapshot store allocated")

/-- Empties a slot. It should have held a pair. -/
def release (k : Nat) : Action Thread Unit := do
  let before ← get
  let _ ← store k none
  if (before.snapshots? k).isNone then Action.fail .nothingToRelease
  Action.say .trace .snapshots (before.label ++ "snapshot store released")

/-- The pair in a slot. -/
def snapshots (k : Nat) : Action Thread Snapshots := do
  let t ← get
  match t.snapshots? k with
  | some pair => pure pair
  | none => Action.fail (.noSnapshots t.id)

/-- Replaces the pair in a slot, which holds one already. -/
def setSnapshots (k : Nat) (pair : Snapshots) : Action Thread Unit := do
  let _ ← snapshots k
  modify (·.setSlot k (some (.snapshots pair)))

/-- Saves the registers, for the comparison or else for the rewinding. -/
def save (k : Nat) (forCompare : Bool) : Action Thread Unit := do
  let t ← get
  Action.say .trace .protocol
    (t.label ++ "save state (for_cmp=" ++ toString forCompare ++ ")")
  let pair ← snapshots k
  setSnapshots k <| if forCompare then { pair with forCompare := t.registers }
    else { pair with forRestore := t.registers }

/-- Rewinds the registers. -/
def restore (k : Nat) : Action Thread Unit := do
  Action.say .trace .protocol ((← get).label ++ "restore state")
  let pair ← snapshots k
  modify (·.setRegisters pair.forRestore)

/-- Compares the registers, left by the plain run, with those saved after the instrumented one.
A difference is reported and ends the run. -/
def compare (k : Nat) (arch : Arch) : Action Thread Unit := do
  let t ← get
  if t.arch ≠ arch then Action.fail (.wrongArch t.id t.arch arch)
  let pair ← snapshots k
  match arch.compare pair.forCompare t.registers with
  | none => pure ()
  | some m =>
    Action.say .error .protocol (t.label ++ m.message)
    Action.fail (.mismatch m)

end Rerun.Thread
