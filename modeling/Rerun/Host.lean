import Rerun.Draft

/-!
# The host

The host hands out notes and storage slots, keeps its clients in the order of their priorities,
and tells them when a thread starts, when one ends, and when a block is ready for changes.
-/

namespace Rerun

/-- A client's name, which no other client may have, and its place in the order. -/
structure Priority where
  name : String
  value : Int
deriving DecidableEq, Repr

/-- What a client does when the host calls it. -/
structure Client where
  /-- A thread starts. -/
  started : Action Thread Unit
  /-- A thread ends. -/
  ended : Action Thread Unit
  /-- A block is ready for changes; the flags say whether it is for a trace and whether the host
  builds it once more, only to find its way back to an address. -/
  built : Thread → (forTrace rebuilding : Bool) → Action Draft Unit

/-- A client on the host's list. -/
structure Registration where
  priority : Priority
  client : Client

/-- The tables of a host. -/
structure Host where
  /-- The next note to hand out. -/
  nextNote : Note
  /-- Notes are handed out below this one. -/
  noteEnd : Note
  /-- How many storage slots there are. -/
  slotCount : Nat
  /-- The storage slots in use. -/
  taken : List Nat
  /-- The clients in the order in which they are called. -/
  clients : List Registration
  /-- Whether every client is turned away. -/
  rejecting : Bool
  /-- The number of the next thread. -/
  nextThread : Nat

namespace Host

/-- The first note that a host hands out. -/
def firstNote : Note := 0x1000

/-- A host without clients. -/
def new : Host where
  nextNote := firstNote
  noteEnd := BitVec.allOnes 64
  slotCount := 64
  taken := []
  clients := []
  rejecting := false
  nextThread := 1

/-- Limits the notes that are left to `count`. -/
def withNotes (h : Host) (count : Word) : Host :=
  { h with noteEnd := BitVec.ofNat 64 (min (h.nextNote.toNat + count.toNat) (Word.count - 1)) }

/-- Gives the host `count` storage slots, none of them in use. The host has a byte for each. -/
def withSlots (h : Host) (count : Nat) : Except Fault Host :=
  if count ≤ memoryLimit then .ok { h with slotCount := count, taken := [] }
  else .error .tableTooLarge

/-- Makes the host turn away every client from now on. -/
def rejectingClients (h : Host) : Host := { h with rejecting := true }

/-- The names of the clients in the order in which they are called. -/
def clientNames (h : Host) : List String := h.clients.map (·.priority.name)

/-- How many storage slots are in use. -/
def slotsInUse (h : Host) : Nat := h.taken.length

/-- Hands out `count` notes in a row and gives the first, if there are as many. -/
def reserveNotes (h : Host) (count : Word) : Option Note × Host :=
  let stop := h.nextNote.toNat + count.toNat
  if stop ≤ h.noteEnd.toNat then (some h.nextNote, { h with nextNote := BitVec.ofNat 64 stop })
  else (none, h)

/-- The first storage slot that is not in use. Of the first `n + 1` slots one is free if `n` are in
use, so no further one is looked at. -/
def freeSlot? (h : Host) : Option Nat :=
  (List.range (min h.slotCount (h.taken.length + 1))).find? fun k => !h.taken.contains k

/-- Hands out the first storage slot that is not in use. -/
def takeSlot (h : Host) : Option Nat × Host :=
  match h.freeSlot? with
  | some k => (some k, { h with taken := k :: h.taken })
  | none => (none, h)

/-- Takes a storage slot back; `false` if it was not in use. -/
def releaseSlot (h : Host) (k : Nat) : Bool × Host :=
  if h.taken.contains k then (true, { h with taken := h.taken.erase k }) else (false, h)

/-- Puts a client behind all clients of its own or a lower priority value. -/
def place (r : Registration) : List Registration → List Registration
  | [] => [r]
  | x :: rest => if r.priority.value < x.priority.value then r :: x :: rest else x :: place r rest

/-- Adds a client; `false` if it is turned away or its name is taken. -/
def addClient (h : Host) (r : Registration) : Bool × Host :=
  if h.rejecting || h.clients.any (·.priority.name == r.priority.name) then (false, h)
  else (true, { h with clients := place r h.clients })

/-- Strikes the client of a name off the list; `false` if there is none. -/
def removeClient (h : Host) (name : String) : Bool × Host :=
  let rest := h.clients.filter (·.priority.name != name)
  (rest.length != h.clients.length, { h with clients := rest })

/-- Tells the clients of a list, in order, that a thread starts. -/
def tellStarted : List Registration → Action Thread Unit
  | [] => pure ()
  | r :: rest => do
    Action.record (.callback r.priority.name (.started (← get).id))
    r.client.started
    tellStarted rest

/-- Tells the clients of a list, in order, that a thread ends. -/
def tellEnded : List Registration → Action Thread Unit
  | [] => pure ()
  | r :: rest => do
    Action.record (.callback r.priority.name (.ended (← get).id))
    r.client.ended
    tellEnded rest

/-- Lets the clients of a list, in order, change a block. -/
def tellBuilt (t : Thread) (forTrace rebuilding : Bool) : List Registration → Action Draft Unit
  | [] => pure ()
  | r :: rest => do
    Action.record
      (.callback r.priority.name (.built t.id (← get).block.length forTrace rebuilding))
    r.client.built t forTrace rebuilding
    tellBuilt t forTrace rebuilding rest

/-- Starts a thread. -/
def spawn (arch : Arch) : Action Host Thread := do
  let h ← get
  set { h with nextThread := h.nextThread + 1 }
  let ((), t) ← (tellStarted h.clients).on (.new h.nextThread arch)
  Action.say .debug .host ("thread " ++ toString h.nextThread ++ " started (" ++ arch.name ++ ")")
  return t

/-- Ends a thread. -/
def exit (h : Host) : Action Thread Unit := do
  tellEnded h.clients
  Action.say .debug .host ("thread " ++ toString (← get).id ++ " exited")

/-- Lets every client change a block that a thread is about to run. -/
def process (h : Host) (t : Thread) (forTrace rebuilding : Bool) : Action Draft Unit :=
  tellBuilt t forTrace rebuilding h.clients

end Host

end Rerun
