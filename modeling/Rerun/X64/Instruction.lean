import Rerun.X64.Register

/-!
# Decoded x86-64 instructions

What a decoder tells about an instruction: what it does, where control goes after it, its
operands, how it touches memory, and its text. Names the interpreter has no rule for are kept as
they are, so that every instruction can be listed and reported.
-/

namespace Rerun.X64

/-- The operation of an instruction. -/
inductive Mnemonic
  | nop | mov | kmovq
  | add | sub | cmp | and | or | xor | test
  | inc | dec | neg | not
  | lea | xchg
  | movdqa | movdqu | movaps | movups | pxor | xorps | paddq | pcmpeqd
  | syscall | sysenter | int
  | other (name : String)
deriving DecidableEq, Repr

namespace Mnemonic

/-- The name of an operation. -/
def name : Mnemonic → String
  | nop => "Nop" | mov => "Mov" | kmovq => "Kmovq"
  | add => "Add" | sub => "Sub" | cmp => "Cmp" | and => "And" | or => "Or" | xor => "Xor"
  | test => "Test"
  | inc => "Inc" | dec => "Dec" | neg => "Neg" | not => "Not"
  | lea => "Lea" | xchg => "Xchg"
  | movdqa => "Movdqa" | movdqu => "Movdqu" | movaps => "Movaps" | movups => "Movups"
  | pxor => "Pxor" | xorps => "Xorps" | paddq => "Paddq" | pcmpeqd => "Pcmpeqd"
  | syscall => "Syscall" | sysenter => "Sysenter" | int => "Int"
  | other name => name

/-- The operations that a rule of the library names. -/
def known : List Mnemonic :=
  [nop, mov, kmovq, add, sub, cmp, and, or, xor, test, inc, dec, neg, not, lea, xchg, movdqa,
    movdqu, movaps, movups, pxor, xorps, paddq, pcmpeqd, syscall, sysenter, int]

/-- The operation of a name. -/
def ofName (name : String) : Mnemonic := (known.find? (·.name == name)).getD (other name)

end Mnemonic

/-- Where control goes after an instruction. -/
inductive Flow
  | next
  | unconditionalBranch
  | indirectBranch
  | conditionalBranch
  | ret
  | call
  | indirectCall
  | interrupt
  | transaction
  | exception
deriving DecidableEq, Repr

namespace Flow

/-- The name of a kind of control flow. -/
def name : Flow → String
  | next => "Next"
  | unconditionalBranch => "UnconditionalBranch"
  | indirectBranch => "IndirectBranch"
  | conditionalBranch => "ConditionalBranch"
  | ret => "Return"
  | call => "Call"
  | indirectCall => "IndirectCall"
  | interrupt => "Interrupt"
  | transaction => "XbeginXabortXend"
  | exception => "Exception"

/-- The kind of control flow of a name. -/
def ofName? (name : String) : Option Flow :=
  [next, unconditionalBranch, indirectBranch, conditionalBranch, ret, call, indirectCall,
    interrupt, transaction, exception].find? (·.name == name)

end Flow

/-- How an immediate operand is encoded, before it is extended to a word. -/
inductive Immediate
  | b8 | b16 | b32 | b64
  | b8to16 | b8to32 | b8to64 | b32to64
deriving DecidableEq, Repr

namespace Immediate

/-- The name of an encoding. -/
def name : Immediate → String
  | b8 => "Immediate8" | b16 => "Immediate16" | b32 => "Immediate32" | b64 => "Immediate64"
  | b8to16 => "Immediate8to16" | b8to32 => "Immediate8to32" | b8to64 => "Immediate8to64"
  | b32to64 => "Immediate32to64"

/-- The encoding of a name. -/
def ofName? (name : String) : Option Immediate :=
  [b8, b16, b32, b64, b8to16, b8to32, b8to64, b32to64].find? (·.name == name)

end Immediate

/-- The encoded width of the target of a direct branch. -/
inductive Near
  | b16 | b32 | b64
deriving DecidableEq, Repr

namespace Near

/-- The name of an encoded width. -/
def name : Near → String
  | b16 => "NearBranch16"
  | b32 => "NearBranch32"
  | b64 => "NearBranch64"

/-- The encoded width of a name. -/
def ofName? (name : String) : Option Near := [b16, b32, b64].find? (·.name == name)

end Near

/-- An address: base plus scaled index plus displacement. -/
structure Address where
  base : Option Register
  index : Option Register
  scale : Word
  displacement : Word
  ipRelative : Bool
deriving DecidableEq, Repr

/-- An operand. -/
inductive Operand
  | register (r : Register)
  | immediate (encoding : Immediate) (value : Word)
  | near (width : Near) (target : Word)
  | memory (address : Address)
  | other (kind : String)
deriving DecidableEq, Repr

namespace Operand

/-- The name of the kind of an operand. -/
def kind : Operand → String
  | register _ => "Register"
  | immediate e _ => e.name
  | near w _ => w.name
  | memory _ => "Memory"
  | other kind => kind

end Operand

/-- How an instruction uses a piece of memory. -/
inductive Access
  | absent
  | read
  | condRead
  | write
  | condWrite
  | readWrite
  | readCondWrite
  | addressOnly
deriving DecidableEq, Repr

namespace Access

/-- The name of a use. -/
def name : Access → String
  | absent => "None"
  | read => "Read"
  | condRead => "CondRead"
  | write => "Write"
  | condWrite => "CondWrite"
  | readWrite => "ReadWrite"
  | readCondWrite => "ReadCondWrite"
  | addressOnly => "NoMemAccess"

/-- The use of a name. -/
def ofName? (name : String) : Option Access :=
  [absent, read, condRead, write, condWrite, readWrite, readCondWrite, addressOnly].find?
    (·.name == name)

/-- Whether the memory may be written. -/
def writes : Access → Bool
  | write | condWrite | readWrite | readCondWrite => true
  | _ => false

end Access

/-- A decoded instruction. -/
structure Instruction where
  mnemonic : Mnemonic
  flow : Flow
  operands : List Operand
  accesses : List Access
  text : String
deriving DecidableEq, Repr

namespace Instruction

/-- Operand `n`. An operand that is not there reads as the absent register. -/
def operand (i : Instruction) (n : Nat) : Operand := i.operands.getD n (.register .none)

end Instruction

end Rerun.X64
