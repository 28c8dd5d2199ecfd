import Rerun.Block

/-!
# Drafts

A draft is a block that is being changed, together with the next identity that no entry has had
yet. Every new entry takes its identity from there.
-/

namespace Rerun

/-- A block that is being changed. -/
structure Draft where
  block : Block
  nextId : EntryId

namespace Draft

/-- An identity that no entry has. This is so for the first 2^64 that are drawn. -/
def freshId : Action Draft EntryId :=
  modifyGet fun d => (d.nextId, { d with nextId := d.nextId + 1 })

/-- A new entry. -/
def entry (content : Content) (isApp : Bool) (note : Option Note) : Action Draft Entry := do
  return ⟨← freshId, content, isApp, note⟩

/-- A new entry of the program itself. -/
def app (i : X64.Instruction) : Action Draft Entry := entry (.machine i) true none

/-- A new instruction of a tool. -/
def tool (i : X64.Instruction) : Action Draft Entry := entry (.machine i) false none

/-- A new label. -/
def label (note : Option Note) : Action Draft Entry := entry .label false note

/-- A new call. -/
def call (c : Call) : Action Draft Entry := entry (.call c) false none

/-- An entry like `e` under an identity of its own. -/
def duplicate (e : Entry) : Action Draft Entry := entry e.content e.isApp e.note

/-- Entries like those of a block under identities of their own. -/
def duplicateAll : Block → Action Draft Block
  | [] => pure []
  | e :: rest => do
    let e ← duplicate e
    return e :: (← duplicateAll rest)

/-- New entries of the program itself, one for each instruction. -/
def appAll : List X64.Instruction → Action Draft Block
  | [] => pure []
  | i :: rest => do
    let e ← app i
    return e :: (← appAll rest)

/-- Replaces the block. -/
def setBlock (b : Block) : Action Draft Unit := modify fun d => { d with block := b }

/-- Puts an entry at the end. -/
def push (e : Entry) : Action Draft EntryId := do
  modify fun d => { d with block := d.block ++ [e] }
  return e.id

/-- Replaces the block by an edit of it that may not apply; the value is the identity given if
the edit did apply. -/
def edit (id : EntryId) (f : Block → Option Block) : Action Draft (Option EntryId) := do
  match f (← get).block with
  | some b =>
    setBlock b
    return some id
  | none => return none

/-- Puts an entry in front of the entry `target`. -/
def insertBefore (target : EntryId) (e : Entry) : Action Draft (Option EntryId) :=
  edit e.id (Block.insertBefore target e)

/-- Puts an entry behind the entry `target`. -/
def insertAfter (target : EntryId) (e : Entry) : Action Draft (Option EntryId) :=
  edit e.id (Block.insertAfter target e)

/-- Puts a call in front of the entry `target`. -/
def insertCall (target : EntryId) (c : Call) : Action Draft (Option EntryId) := do
  insertBefore target (← call c)

/-- Takes the entry `target` out. -/
def remove (target : EntryId) : Action Draft (Option Entry) := do
  match (← get).block.remove target with
  | some (e, b) =>
    setBlock b
    return some e
  | none => return none

/-- Drops every entry that is not to be kept. -/
def retain (keep : Entry → Bool) : Action Draft Unit :=
  modify fun d => { d with block := d.block.filter keep }

/-- Puts the entries of another block at the end. -/
def append (other : Block) : Action Draft Unit :=
  modify fun d => { d with block := d.block ++ other }

end Draft

end Rerun
