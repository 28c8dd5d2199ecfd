import Rerun.Block

/-!
# Which blocks may run twice

A block may run twice if none of the program's own instructions does something that a second run
would repeat: writing memory, raising an interrupt, asking the system for a service. What tools
have put in does not count, because it is not run again.
-/

namespace Rerun

/-- What a second run would repeat. -/
inductive SideEffect
  | memoryWrite
  | interrupt
  | systemCall
deriving DecidableEq, Repr

namespace SideEffect

/-- The name of an effect. -/
def name : SideEffect → String
  | memoryWrite => "memory write"
  | interrupt => "interrupt"
  | systemCall => "system call"

end SideEffect

/-- Whether a block may run twice, and if not, the first entry in the way. -/
inductive Eligibility
  | eligible
  | sideEffect (id : EntryId) (effect : SideEffect)
deriving DecidableEq, Repr

namespace Entry

/-- The effect of an entry that rules out a second run. An interrupt that asks for a service
counts as a system call. -/
def sideEffect? (e : Entry) : Option SideEffect :=
  if e.isSystemCall then some .systemCall
  else if e.isInterrupt then some .interrupt
  else if e.writesMemory then some .memoryWrite
  else none

end Entry

namespace Block

/-- Classifies a block by the first of its own entries that has an effect. -/
def eligibility (b : Block) : Eligibility :=
  ((b.app.findSome? fun e => e.sideEffect?.map (Eligibility.sideEffect e.id)).getD .eligible)

/-- Whether a block may run twice. -/
def isSideEffectFree (b : Block) : Bool := b.eligibility == .eligible

end Block

end Rerun
