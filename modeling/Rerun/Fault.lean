import Rerun.Arch

/-!
# Faults

A fault stops what is running at once. Each one names its cause; `Fault.message` is the text
shown for it.
-/

namespace Rerun

/-- The first field on which two register files differ, with the text of both values. -/
structure Mismatch where
  field : String
  instrumented : String
  rerun : String
deriving DecidableEq, Repr

namespace Mismatch

/-- The diagnostic line. -/
def message (m : Mismatch) : String :=
  "state mismatch: " ++ m.field ++ " (instrumented " ++ m.instrumented ++ ", re-executed "
    ++ m.rerun ++ ")"

end Mismatch

/-- Why a run was stopped. -/
inductive Fault
  /-- The instrumented run and the plain run disagree. -/
  | mismatch (m : Mismatch)
  /-- A checker for one architecture met a thread of another. -/
  | wrongArch (thread : Nat) (runs compares : Arch)
  /-- A thread has no snapshots where they are looked for. -/
  | noSnapshots (thread : Nat)
  /-- A thread was given snapshots although its slot was taken. -/
  | initializedTwice
  /-- A thread was to give back snapshots that it does not hold. -/
  | nothingToRelease
  /-- A place was named by a number beyond the last one. -/
  | indexOutOfBounds (length index : Nat)
  /-- More bytes were asked for than there are. -/
  | endOutOfRange (length stop : Nat)
  /-- A sum left the range of words. -/
  | addOverflow
  /-- A table would not fit into any memory. -/
  | tableTooLarge
deriving DecidableEq, Repr

namespace Fault

/-- The text shown for a fault. -/
def message : Fault → String
  | mismatch m => m.message
  | wrongArch thread runs compares =>
    "thread " ++ toString thread ++ " runs " ++ runs.name ++ " code but the checker compares "
      ++ compares.name ++ " state"
  | noSnapshots thread => "thread " ++ toString thread ++ " has no snapshot store"
  | initializedTwice => "thread initialized twice"
  | nothingToRelease => "thread-local storage should not be empty"
  | indexOutOfBounds length index =>
    "index out of bounds: the len is " ++ toString length ++ " but the index is " ++ toString index
  | endOutOfRange length stop =>
    "range end index " ++ toString stop ++ " out of range for slice of length " ++ toString length
  | addOverflow => "attempt to add with overflow"
  | tableTooLarge => "capacity overflow"

end Fault

end Rerun
