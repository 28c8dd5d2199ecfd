import Rerun.Action
import Rerun.Text.Quoted
import Rerun.Thread
import Rerun.X64.Effect

/-!
# Blocks

A block is a list of entries: machine instructions, labels, and calls of procedures that run on
the thread. Each entry has an identity of its own, which edits address and which stays with the
entry as others come and go. Entries of the program itself are told from those that a tool has
put in between.
-/

namespace Rerun

/-- The identity of an entry. The counter that identities are drawn from has 64 bits and would come
round again behind the last of them; fewer than 2^64 are ever drawn, so they are plain numbers. -/
abbrev EntryId := Nat

/-- A tag that can be put on an entry. -/
abbrev Note := Word

/-- A procedure of the library or of a tool, called from within a block. -/
structure Call where
  name : String
  args : List Int
  body : List Int → Action Thread Unit

namespace Call

/-- Runs the procedure on a thread. -/
def invoke (c : Call) : Action Thread Unit := c.body c.args

/-- The arguments as a list. -/
def argsText (c : Call) : String := "[" ++ String.intercalate ", " (c.args.map toString) ++ "]"

/-- A call as a record of its name and its arguments. -/
def record (c : Call) : String :=
  "RuntimeCall \x7b name: " ++ Text.quoted c.name ++ ", args: " ++ c.argsText ++ " \x7d"

/-- A call that does nothing. -/
def idle (name : String) (args : List Int) : Call := ⟨name, args, fun _ => pure ()⟩

/-- A call that writes its second argument to the general register numbered by its first. -/
def poke (args : List Int) : Call where
  name := "poke"
  args := args
  body
    | n :: v :: _ => do
      let t ← get
      let file ← Action.ofExcept <|
        t.registers.setWordAt (.gpr (BitVec.ofInt 64 n).toNat) (BitVec.ofInt 64 v)
      set (t.setRegisters file)
    | args => Action.fail (.indexOutOfBounds args.length args.length)

end Call

/-- What an entry is. -/
inductive Content
  | machine (i : X64.Instruction)
  | label
  | call (c : Call)

/-- An entry of a block. -/
structure Entry where
  id : EntryId
  content : Content
  /-- Whether the entry belongs to the program itself. -/
  isApp : Bool
  note : Option Note

namespace Entry

/-- The machine instruction of an entry. -/
def machine? (e : Entry) : Option X64.Instruction :=
  match e.content with
  | .machine i => some i
  | _ => none

/-- The call of an entry. -/
def call? (e : Entry) : Option Call :=
  match e.content with
  | .call c => some c
  | _ => none

/-- Whether an entry is a label. -/
def isLabel (e : Entry) : Bool :=
  match e.content with
  | .label => true
  | _ => false

/-- Whether a question about machine instructions is answered yes; labels and calls answer no. -/
def holds (e : Entry) (p : X64.Instruction → Bool) : Bool := e.machine?.any p

/-- Whether the entry may write memory. -/
def writesMemory (e : Entry) : Bool := e.holds (·.writesMemory)

/-- Whether the entry raises an interrupt. -/
def isInterrupt (e : Entry) : Bool := e.holds (·.isInterrupt)

/-- Whether the entry asks the system for a service. -/
def isSystemCall (e : Entry) : Bool := e.holds (·.isSystemCall)

/-- Whether the entry is a branch, a jump or a call instruction. -/
def isTransfer (e : Entry) : Bool := e.holds (·.isTransfer)

/-- Whether the entry is a return. -/
def isReturn (e : Entry) : Bool := e.holds (·.isReturn)

/-- Whether the entry ends a block by handing control on. -/
def isTerminator (e : Entry) : Bool := e.isTransfer || e.isReturn

end Entry

/-- A block of code. -/
abbrev Block := List Entry

namespace Block

/-- The entries of the program itself. -/
def app (b : Block) : Block := b.filter (·.isApp)

/-- The first entry of the program itself. -/
def firstApp? (b : Block) : Option Entry := b.find? (·.isApp)

/-- The last entry of the program itself. -/
def lastApp? (b : Block) : Option Entry := b.reverse.find? (·.isApp)

/-- Where an entry stands. -/
def position? (b : Block) (target : EntryId) : Option Nat := b.findIdx? (·.id == target)

/-- Whether an entry is in the block. -/
def has (b : Block) (target : EntryId) : Bool := b.any (·.id == target)

/-- Puts an entry in front of another; `none` if that one is not in the block. -/
def insertBefore (target : EntryId) (e : Entry) : Block → Option Block
  | [] => none
  | x :: rest =>
    if x.id = target then some (e :: x :: rest) else (insertBefore target e rest).map (x :: ·)

/-- Puts an entry behind another; `none` if that one is not in the block. -/
def insertAfter (target : EntryId) (e : Entry) : Block → Option Block
  | [] => none
  | x :: rest =>
    if x.id = target then some (x :: e :: rest) else (insertAfter target e rest).map (x :: ·)

/-- Takes an entry out and gives it back with the rest; `none` if it is not in the block. -/
def remove (target : EntryId) : Block → Option (Entry × Block)
  | [] => none
  | x :: rest =>
    if x.id = target then some (x, rest)
    else (remove target rest).map fun (e, rest) => (e, x :: rest)

end Block

end Rerun
