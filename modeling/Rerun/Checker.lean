import Rerun.Eligibility
import Rerun.Host
import Rerun.Listing
import Rerun.Protocol

/-!
# Checkers

A checker holds a storage slot, three notes and a place among the host's clients. It gives every
thread snapshots while the thread lives, and turns each block that may run twice into a check of
itself. Setting a checker up takes three things from the host one after another; if one of them
is not to be had, those taken before are given back.
-/

namespace Rerun

/-- Something that is given back when a checker is taken down. -/
inductive Resource
  | client
  | slot
deriving DecidableEq, Repr

namespace Resource

/-- The name of a resource in messages. -/
def name : Resource → String
  | client => "pipeline client"
  | slot => "tls slot"

end Resource

/-- Why a checker cannot be set up or taken down. -/
inductive SetupError
  | notesExhausted (requested : Nat)
  | noSlot
  | clientRefused (name : String)
  | notHeld (what : Resource)
deriving DecidableEq, Repr

namespace SetupError

/-- The text shown for a failure. -/
def message : SetupError → String
  | notesExhausted requested =>
    "failed to reserve " ++ toString requested ++ " marker notes: note space exhausted"
  | noSlot => "no thread-local storage slot available"
  | clientRefused name => "failed to register pipeline client '" ++ name ++ "'"
  | notHeld what => "failed to unregister " ++ what.name

end SetupError

/-- What a checker is set up for. -/
structure Config where
  arch : Arch
  priority : Priority
deriving DecidableEq, Repr

namespace Config

/-- The name and place of a checker that is given no other. It comes after the tools, so that it
sees the blocks as they will run. -/
def defaultPriority : Priority := ⟨"statecmp", 7500⟩

/-- A checker for an architecture at the usual place. -/
def new (arch : Arch) : Config := ⟨arch, defaultPriority⟩

end Config

/-- A checker that has been set up. -/
structure Checker where
  markers : Markers
  slot : Nat
  priority : Priority
  arch : Arch
deriving DecidableEq, Repr

namespace Markers

/-- Takes notes from the host. -/
def reserve : Action Host (Except SetupError Markers) := do
  match ← modifyGet (Host.reserveNotes · (BitVec.ofNat 64 count)) with
  | some base =>
    Action.say .debug .markers
      ("reserved marker notes " ++ toString base.toNat ++ ".." ++ toString (base.toNat + count))
    return .ok ⟨base⟩
  | none => return .error (.notesExhausted count)

end Markers

/-- What became of a block. -/
inductive BlockOutcome
  /-- It checks itself now. -/
  | checked (layout : Layout)
  /-- It may not run twice and stays as it is. -/
  | sideEffect (id : EntryId) (effect : SideEffect)
  /-- There is nothing in it to check. -/
  | empty
deriving DecidableEq, Repr

namespace Checker

/-- Turns a block that may run twice into a check of itself. -/
def processBlock (c : Checker) : Action Draft BlockOutcome := do
  match (← get).block.eligibility with
  | .sideEffect id effect =>
    Action.say .debug .checker ("block passes through unchecked: " ++ effect.name)
    return .sideEffect id effect
  | .eligible =>
    let some layout ← c.markers.double | return .empty
    if ← layout.install c.slot c.arch then
      Action.say .debug .checker
        ("block checked: " ++ toString (← get).block.length ++ " instructions after transform")
      return .checked layout
    else
      Action.say .error .checker "duplicated block lost its markers; protocol not installed"
      return .empty

/-- The lines of a block, with markers by their names. -/
def describe (c : Checker) : Block → Except Fault String
  | [] => .ok ""
  | e :: rest => do
    let line := match ← c.markers.kindOf e with
      | some kind => kind.name ++ ":\n"
      | none => "    " ++ e.line ++ "\n"
    return line ++ (← c.describe rest)

/-- The checker as a client of the host. -/
def client (c : Checker) : Client where
  started := Thread.allocate c.slot
  ended := Thread.release c.slot
  built _ _ _ := do
    let _ ← c.processBlock

/-- Sets a checker up on a host. -/
def register (config : Config) : Action Host (Except SetupError Checker) := do
  match ← modifyGet Host.takeSlot with
  | none => return .error .noSlot
  | some k =>
    match ← Markers.reserve with
    | .error e =>
      let _ ← modifyGet (Host.releaseSlot · k)
      return .error e
    | .ok markers =>
      let c : Checker := ⟨markers, k, config.priority, config.arch⟩
      if ← modifyGet (Host.addClient · ⟨config.priority, c.client⟩) then
        Action.say .info .checker
          ("statecmp registered: tls slot " ++ toString k ++ ", notes from "
            ++ Hex.word markers.base ++ ", priority " ++ config.priority.name ++ " ("
            ++ toString config.priority.value ++ ")")
        return .ok c
      else
        let _ ← modifyGet (Host.releaseSlot · k)
        return .error (.clientRefused config.priority.name)

/-- Takes a checker down. The slot is given back after the client, and only if that is found. -/
def unregister (c : Checker) : Action Host (Except SetupError Unit) := do
  if ← modifyGet (Host.removeClient · c.priority.name) then
    if ← modifyGet (Host.releaseSlot · c.slot) then
      Action.say .info .checker "statecmp unregistered"
      return .ok ()
    else
      return .error (.notHeld .slot)
  else
    return .error (.notHeld .client)

end Checker

end Rerun
