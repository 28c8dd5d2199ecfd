import Rerun.Block

/-!
# Listings

One line for each entry of a block: whose it is, then the instruction, the label with its note,
or the call with its arguments.
-/

namespace Rerun

namespace Entry

/-- The line of an entry. -/
def line (e : Entry) : String :=
  (if e.isApp then "app   " else "meta  ") ++
    match e.content with
    | .machine i => i.text
    | .label =>
      match e.note with
      | some note => "label <note " ++ Hex.word note ++ ">"
      | none => "label"
    | .call c => "call " ++ c.name ++ c.argsText

end Entry

namespace Block

/-- The lines of a block, each with its end. -/
def listing (b : Block) : String := String.join (b.map fun e => e.line ++ "\n")

end Block

end Rerun
