/-!
# Architectures

The two instruction sets a thread can run.
-/

namespace Rerun

/-- The instruction set of a thread. -/
inductive Arch
  | x64
  | arm64
deriving DecidableEq, Repr

namespace Arch

/-- The name used in messages. -/
def name : Arch → String
  | x64 => "x86_64"
  | arm64 => "aarch64"

/-- How many bytes of a vector register mean something. -/
def vectorBytes : Arch → Nat
  | x64 => 64
  | arm64 => 16

end Arch

end Rerun
