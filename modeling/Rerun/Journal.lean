/-!
# The journal

What the library reports while it works: messages of five levels, each from the part that wrote
it, and the callbacks that the host delivers to its clients.
-/

namespace Rerun

/-- How much a message matters. -/
inductive Level
  | error
  | warn
  | info
  | debug
  | trace
deriving DecidableEq, Repr

namespace Level

/-- The name of a level. -/
def name : Level → String
  | error => "ERROR"
  | warn => "WARN"
  | info => "INFO"
  | debug => "DEBUG"
  | trace => "TRACE"

/-- Zero for the gravest level. -/
def rank : Level → Nat
  | error => 0
  | warn => 1
  | info => 2
  | debug => 3
  | trace => 4

end Level

/-- The part of the program that writes a message. -/
inductive Part
  | command
  | markers
  | doubling
  | protocol
  | snapshots
  | checker
  | activation
  | host
  | clobber
deriving DecidableEq, Repr

namespace Part

/-- The name that stands before a message. -/
def name : Part → String
  | command => "statecmp"
  | markers => "statecmp::core::markers"
  | doubling => "statecmp::core::duplicate"
  | protocol => "statecmp::core::protocol"
  | snapshots => "statecmp::core::store"
  | checker => "statecmp::core::checker"
  | activation => "statecmp::core::runtime"
  | host => "statecmp::sim"
  | clobber => "statecmp::sim::clobber"

end Part

/-- A line of the journal. -/
structure Message where
  level : Level
  part : Part
  text : String
deriving DecidableEq, Repr

/-- What the host tells its clients. -/
inductive Event
  /-- A thread starts. -/
  | started (thread : Nat)
  /-- A thread ends. -/
  | ended (thread : Nat)
  /-- A block of so many entries is ready for changes. -/
  | built (thread : Nat) (length : Nat) (forTrace rebuilding : Bool)
deriving DecidableEq, Repr

/-- An item of the journal. -/
inductive Record
  | message (m : Message)
  | callback (client : String) (event : Event)
deriving DecidableEq, Repr

namespace Record

/-- The message of a record, if it is one. -/
def message? : Record → Option Message
  | message m => some m
  | callback _ _ => none

/-- The callback of a record, if it is one: who was called, and why. -/
def callback? : Record → Option (String × Event)
  | message _ => none
  | callback client event => some (client, event)

end Record

end Rerun
