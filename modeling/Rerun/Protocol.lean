import Rerun.Doubling
import Rerun.Snapshots

/-!
# The calls of a checked block

Four calls turn a doubled block into a check of itself. In front of the instrumented run the
registers are saved; in front of the plain run they are saved again and rewound to the first
save, so that both runs start alike; in front of the terminator the registers are compared with
the second save.
-/

namespace Rerun

namespace Call

/-- Saves the registers to the snapshots in slot `k`. -/
def save (k : Nat) (forCompare : Bool) : Call where
  name := "statecmp_save_state"
  args := [if forCompare then 1 else 0]
  body args := Thread.save k (args.head?.any (· ≠ 0))

/-- Rewinds the registers to the snapshots in slot `k`. -/
def restore (k : Nat) : Call where
  name := "statecmp_restore_state"
  args := []
  body _ := Thread.restore k

/-- Compares the registers with the snapshots in slot `k`. -/
def compare (k : Nat) (arch : Arch) : Call where
  name := "statecmp_compare_state"
  args := []
  body _ := Thread.compare k arch

end Call

namespace Layout

/-- The three markers. -/
def markers (l : Layout) : List EntryId := [l.instrumented, l.plain, l.terminator]

/-- Puts the calls in front of the markers. If one of these is not in the block, nothing is
changed and the value is `false`. -/
def install (l : Layout) (k : Nat) (arch : Arch) : Action Draft Bool := do
  let b := (← get).block
  if l.markers.all b.has then
    let some _ ← Draft.insertCall l.instrumented (.save k false) | return false
    let some _ ← Draft.insertCall l.plain (.save k true) | return false
    let some _ ← Draft.insertCall l.plain (.restore k) | return false
    let some _ ← Draft.insertCall l.terminator (.compare k arch) | return false
    return true
  else
    return false

end Layout

end Rerun
