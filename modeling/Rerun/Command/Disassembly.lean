import Rerun.Command.Run

/-!
# Disassembly

The instructions of the block as lines of text, the way a decoder hands them to the command: one
line an instruction, with its parts between tabs:

    length, operation, control flow, operands, memory accesses, text

Operands are separated by semicolons and accesses by blanks. An operand is the name of its kind,
followed by the register, the value or the target, or by the five parts of an address: base,
index, scale, displacement, and `ip` if the address is relative to the instruction. A place that
holds no instruction is written `invalid` with its address. Numbers are hexadecimal.
-/

namespace Rerun.Command.Disassembly

open X64

/-- The parts of a text between the characters `sep`. -/
def parts (sep : Char) (text : List Char) : List String :=
  go [] text
where
  go (part : List Char) : List Char → List String
    | [] => [String.ofList part.reverse]
    | c :: rest => if c = sep then String.ofList part.reverse :: go [] rest else go (c :: part) rest

/-- The parts of a text that are not empty. -/
def fullParts (sep : Char) (text : String) : List String :=
  (parts sep text.toList).filter (· ≠ "")

/-- A number. -/
def number? (text : String) : Option Word := (readAddress text).toOption

/-- A register of an address, which may be left out. -/
def part? (name : String) : Option Register :=
  match Register.ofName name with
  | .none => none
  | r => some r

/-- An operand. -/
def operand? (text : String) : Option Operand := do
  match fullParts ' ' text with
  | ["Register", name] => return .register (.ofName name)
  | "Memory" :: base :: index :: scale :: displacement :: relative =>
    return .memory ⟨part? base, part? index, ← number? scale, ← number? displacement,
      relative = ["ip"]⟩
  | [kind, value] =>
    match Immediate.ofName? kind, Near.ofName? kind with
    | some e, _ => return .immediate e (← number? value)
    | none, some w => return .near w (← number? value)
    | none, none => return .other kind
  | [kind] => return .other kind
  | _ => none

/-- A line. -/
def line? (text : String) : Option Decoded := do
  match parts '\t' text.toList with
  | ["invalid", address] => return .invalid (← number? address)
  | [length, mnemonic, flow, operands, accesses, text] =>
    return .valid {
      mnemonic := .ofName mnemonic
      flow := ← Flow.ofName? flow
      operands := ← (fullParts ';' operands).mapM operand?
      accesses := ← (fullParts ' ' accesses).mapM Access.ofName?
      text := text } (← number? length).toNat
  | _ => none

/-- The instructions of a disassembly; lines that say nothing are passed over. -/
def read (text : String) : List Decoded := (fullParts '\n' text).filterMap line?

end Rerun.Command.Disassembly
