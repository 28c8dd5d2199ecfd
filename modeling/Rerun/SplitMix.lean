import Rerun.Schema

/-!
# Seeded register files

SplitMix64 turns a seed into a stream of words: the state grows by a fixed odd number and each
state is mixed into a word. A random register file takes one word of the stream for every field
of a schema and then fills the vector registers with bytes.
-/

namespace Rerun

/-- A generator, given by its state. -/
structure SplitMix where
  state : Word
deriving DecidableEq, Repr

namespace SplitMix

/-- The step from one state to the next. -/
def gamma : Word := 0x9e3779b97f4a7c15

/-- The word that a state stands for. -/
def mix (s : Word) : Word :=
  let y := (s ^^^ (s >>> 30)) * 0xbf58476d1ce4e5b9
  let z := (y ^^^ (y >>> 27)) * 0x94d049bb133111eb
  z ^^^ (z >>> 31)

/-- The next word and the generator after it. -/
def next (g : SplitMix) : Word × SplitMix :=
  (mix (g.state + gamma), ⟨g.state + gamma⟩)

/-- The next `n` bytes. Each word gives eight of them, the last one no more than are still missing
and the rest of it is lost. -/
def fill (g : SplitMix) (n : Nat) : List Byte × SplitMix :=
  if n = 0 then ([], g)
  else
    let (w, g) := g.next
    let (bytes, g) := g.fill (n - 8)
    (Bytes.low w (min n 8) ++ bytes, g)

/-- One word for each field, in order; a vector field uses its word up and ignores it. -/
def fillFields (g : SplitMix) (file : RegisterFile) : List Field → RegisterFile × SplitMix
  | [] => (file, g)
  | f :: rest =>
    let (w, g) := g.next
    g.fillFields (file.setWord f.slot w) rest

/-- Fills the low `width` bytes of the listed vector registers, in order; the bytes above stay. -/
def fillVectors (g : SplitMix) (width : Nat) (file : RegisterFile) :
    List (Fin 32) → RegisterFile × SplitMix
  | [] => (file, g)
  | i :: rest =>
    let (bytes, g) := g.fill width
    g.fillVectors width (file.setSimd i (Bytes.setLow (file.simd.get i) bytes)) rest

end SplitMix

/-- The register file that a seed gives for an architecture. -/
def RegisterFile.random (arch : Arch) (seed : Word) : RegisterFile :=
  let (file, g) := SplitMix.fillFields ⟨seed⟩ .zero arch.schema
  (g.fillVectors arch.vectorBytes file (List.finRange 32)).1

end Rerun
