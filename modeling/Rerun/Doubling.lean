import Rerun.Markers

/-!
# Doubling a block

Doubling appends to a block a copy of the program's own entries, so that one pass through it runs
the program twice: first with what tools have put in, then without. The terminator is taken out
of the first run and comes once, at the end. Three markers divide the result:

    instrumented  the block as it was, without its terminator
    plain         the program's entries, without the terminator
    terminator    the terminator, if the block has one
-/

namespace Rerun

/-- Where the markers of a doubled block are. -/
structure Layout where
  instrumented : EntryId
  plain : EntryId
  terminator : EntryId
  /-- Whether the block ended in a terminator, which now stands at the end. -/
  relocated : Bool
deriving DecidableEq, Repr

namespace Markers

/-- Doubles the block of a draft. A block without entries of the program stays as it is. All of the
block is copied, so an entry of a tool uses an identity up as well, and of the copies only those of
the program are kept. -/
def double (m : Markers) : Action Draft (Option Layout) := do
  let b := (← get).block
  let some first := b.head? | return none
  let some last := b.lastApp? | return none
  let copies ← Draft.duplicateAll b
  let copy := Block.app copies
  let some instrumented ← m.insert first.id .instrumented true | return none
  let some copyFirst := copy.head? | return none
  let plainMarker ← m.marker .plain
  let some copy := copy.insertBefore copyFirst.id plainMarker | return none
  let some copyLast := copy.lastApp? | return none
  let endMarker ← m.marker .terminator
  let marked :=
    if copyLast.isTerminator then copy.insertBefore copyLast.id endMarker
    else copy.insertAfter copyLast.id endMarker
  let some copy := marked | return none
  if last.isTerminator then
    let _ ← Draft.remove last.id
  Draft.append copy
  Action.say .trace .doubling
    ("duplicated block: " ++ toString (← get).block.length ++ " instructions, terminator "
      ++ if last.isTerminator then "relocated" else "none")
  return some ⟨instrumented, plainMarker.id, endMarker.id, last.isTerminator⟩

end Markers

end Rerun
