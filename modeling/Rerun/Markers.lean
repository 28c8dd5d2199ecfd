import Rerun.Draft

/-!
# Markers

A checked block is divided by three markers: labels with notes from a range of three that no
other checker uses. The kind of a marker is its note's distance from the start of the range.
-/

namespace Rerun

/-- What a marker stands in front of. -/
inductive MarkerKind
  /-- The instrumented run. -/
  | instrumented
  /-- The plain run. -/
  | plain
  /-- The end of the plain run; the terminator may follow. -/
  | terminator
deriving DecidableEq, Repr

namespace MarkerKind

/-- The kinds in the order of their notes. -/
def all : List MarkerKind := [instrumented, plain, terminator]

/-- The distance of a kind's note from the start of the range. -/
def offset : MarkerKind → Nat
  | instrumented => 0
  | plain => 1
  | terminator => 2

/-- The name of a kind in listings. -/
def name : MarkerKind → String
  | instrumented => "ORIG_BB"
  | plain => "COPY_BB"
  | terminator => "TERM"

end MarkerKind

/-- The notes of one checker, given by the first of the three. -/
structure Markers where
  base : Note
deriving DecidableEq, Repr

namespace Markers

/-- How many notes a checker needs. -/
def count : Nat := 3

/-- The note of a kind, unless it lies beyond the last word. -/
def label (m : Markers) (kind : MarkerKind) : Except Fault Note :=
  if m.base.toNat + kind.offset < Word.count then .ok (m.base + BitVec.ofNat 64 kind.offset)
  else .error .addOverflow

/-- Whether an entry carries the note of a kind. -/
def marks (m : Markers) (e : Entry) (kind : MarkerKind) : Except Fault Bool := do
  return e.note == some (← m.label kind)

/-- The first of the kinds whose note is `note`. -/
def kindOfNote (m : Markers) (note : Note) : List MarkerKind → Except Fault (Option MarkerKind)
  | [] => .ok none
  | kind :: rest => do
    if (← m.label kind) = note then return some kind
    m.kindOfNote note rest

/-- The kind of marker that an entry is. -/
def kindOf (m : Markers) (e : Entry) : Except Fault (Option MarkerKind) :=
  match e.note with
  | some note => m.kindOfNote note MarkerKind.all
  | none => .ok none

/-- A new marker. -/
def marker (m : Markers) (kind : MarkerKind) : Action Draft Entry := do
  Draft.label (some (← Action.ofExcept (m.label kind)))

/-- Puts a new marker in front of the entry `target`, or behind it. -/
def insert (m : Markers) (target : EntryId) (kind : MarkerKind) (before : Bool) :
    Action Draft (Option EntryId) := do
  let e ← m.marker kind
  if before then Draft.insertBefore target e else Draft.insertAfter target e

/-- The markers in a block, from left to right. -/
def scan (m : Markers) : Block → Except Fault (List (EntryId × MarkerKind))
  | [] => .ok []
  | e :: rest => do
    match ← m.kindOf e with
    | some kind => return (e.id, kind) :: (← m.scan rest)
    | none => m.scan rest

end Markers

end Rerun
