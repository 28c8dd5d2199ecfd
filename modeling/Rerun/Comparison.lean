import Rerun.Schema

/-!
# Comparing register files

Two register files are compared field by field in the order of a schema. The answer is the first
field on which they differ.
-/

namespace Rerun

namespace Field

/-- Whether two register files hold the same in this field of `arch`. -/
def agrees (f : Field) (arch : Arch) (a b : RegisterFile) : Bool :=
  match f.slot with
  | .simd i =>
    (a.simd.get i).setWidth (8 * arch.vectorBytes) == (b.simd.get i).setWidth (8 * arch.vectorBytes)
  | slot => a.value slot arch.vectorBytes == b.value slot arch.vectorBytes

/-- Two register files agree on a field if it has the same value in both. -/
theorem agrees_iff {f : Field} {arch : Arch} {a b : RegisterFile} :
    f.agrees arch a b ↔ a.value f.slot arch.vectorBytes = b.value f.slot arch.vectorBytes := by
  cases h : f.slot with
  | simd i => simp [agrees, h, RegisterFile.value, Vector.get, Bytes.low_eq_low_iff]
  | _ => simp [agrees, h, RegisterFile.value]

/-- The report that this field differs. -/
def mismatch (f : Field) (arch : Arch) (a b : RegisterFile) : Mismatch :=
  ⟨f.name, (a.value f.slot arch.vectorBytes).text, (b.value f.slot arch.vectorBytes).text⟩

end Field

/-- The first field of `arch` on which the instrumented run and the plain one disagree. -/
def Arch.compare (arch : Arch) (instrumented rerun : RegisterFile) : Option Mismatch :=
  (arch.schema.find? fun f => !f.agrees arch instrumented rerun).map
    fun f => f.mismatch arch instrumented rerun

end Rerun
