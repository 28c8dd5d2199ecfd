import Rerun.Host

/-!
# Tools that add one instruction

A tool of the simplest kind: it adds the same instruction to every block, at a fixed kind of
place.
-/

namespace Rerun

/-- Where a tool adds its instruction. -/
inductive Placement
  /-- In front of the program's first instruction. -/
  | first
  /-- In front of the program's last instruction. -/
  | last
  /-- In front of each of the program's instructions. -/
  | each
  /-- At the end of the block. -/
  | atEnd
deriving DecidableEq, Repr

/-- A tool: the instruction it adds and where, if it adds any. -/
structure Tool where
  addition : Option (X64.Instruction × Placement)
deriving DecidableEq, Repr

namespace Tool

/-- Adds an instruction in front of each entry of a list. -/
def addBefore (i : X64.Instruction) : List Entry → Action Draft Unit
  | [] => pure ()
  | e :: rest => do
    let _ ← Draft.insertBefore e.id (← Draft.tool i)
    addBefore i rest

/-- Changes a block. -/
def apply (tool : Tool) : Action Draft Unit := do
  let b := (← get).block
  match tool.addition with
  | none => pure ()
  | some (i, .first) => addBefore i b.firstApp?.toList
  | some (i, .last) => addBefore i b.lastApp?.toList
  | some (i, .each) => addBefore i b.app
  | some (i, .atEnd) =>
    let _ ← Draft.push (← Draft.tool i)

/-- The tool as a client of the host. -/
def client (tool : Tool) : Client where
  started := pure ()
  ended := pure ()
  built _ _ _ := tool.apply

end Tool

end Rerun
