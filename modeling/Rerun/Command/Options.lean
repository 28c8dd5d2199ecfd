import Rerun.Text.Numeral
import Rerun.Text.Terminal
import Rerun.Word

/-!
# Options

The options of the command line. An option with a value takes it behind an equals sign or as the
next argument; it may come once. A value is looked at when the next option is recognised, or at
the end. Short options may be joined behind one dash.
-/

namespace Rerun.Command

/-- What the command is asked to do. -/
structure Options where
  /-- The machine code of the block. -/
  hex : String
  /-- The register that a faulty tool overwrites. -/
  clobber : Option String := none
  /-- The seed of the first register file. -/
  seed : Word := 0
  /-- How often the block is run. -/
  runs : Nat := 1
  /-- The address of the block. -/
  address : Word := 0x401000
  /-- Whether everything but the finest messages is shown. -/
  verbose : Bool := false
deriving DecidableEq, Repr

/-- An option with a value. -/
inductive Valued
  | hex
  | clobber
  | seed
  | runs
  | address
deriving DecidableEq, Repr

namespace Valued

/-- The name of an option, without its dashes. -/
def name : Valued → String
  | hex => "hex"
  | clobber => "clobber"
  | seed => "seed"
  | runs => "runs"
  | address => "ip"

/-- How messages refer to an option. -/
def shown : Valued → String
  | hex => "--hex <HEX>"
  | clobber => "--clobber <CLOBBER>"
  | seed => "--seed <SEED>"
  | runs => "--runs <RUNS>"
  | address => "--ip <IP>"

/-- The option of a name. -/
def ofName? (name : String) : Option Valued :=
  [hex, clobber, seed, runs, address].find? (·.name == name)

end Valued

/-- What is wrong with the arguments. -/
inductive UsageError
  /-- An option that must be there is missing. -/
  | missingRequired
  /-- An argument that means nothing. -/
  | unexpected (argument : String)
  /-- A value behind an option that takes none. -/
  | unexpectedValue (value option : String)
  /-- An option that comes twice. -/
  | repeated (option : String)
  /-- An option without its value. -/
  | missingValue (option : String)
  /-- A value that the option cannot take. -/
  | invalidValue (value option reason : String)
deriving DecidableEq, Repr

namespace UsageError

/-- An argument in a message. -/
def ofArgument (argument : String) : String := "'" ++ Text.styled 33 argument ++ "'"

/-- An option in a message. -/
def ofOption (option : String) : String := "'" ++ Text.styled 1 option ++ "'"

/-- What the error is, for a terminal. -/
def message : UsageError → String
  | missingRequired => "the following required arguments were not provided:"
  | unexpected argument => "unexpected argument " ++ ofArgument argument ++ " found"
  | unexpectedValue value option =>
    "unexpected value " ++ ofArgument value ++ " for " ++ ofOption option
      ++ " found; no more were expected"
  | repeated option => "the argument " ++ ofArgument option ++ " cannot be used multiple times"
  | missingValue option =>
    "a value is required for " ++ ofArgument option ++ " but none was supplied"
  | invalidValue value option reason =>
    "invalid value " ++ ofArgument value ++ " for " ++ ofOption option ++ ": " ++ reason

/-- All that is written about the error, for a terminal. A reason may hold the start of a
sequence, so that what follows the message matters to what is seen of it. -/
def notice (e : UsageError) : String :=
  Text.styled 31 "error:" ++ " " ++ e.message ++ "\n\nFor more information, try "
    ++ ofOption "--help" ++ ".\n"

end UsageError

/-- Why the arguments do not lead to a run: they are wrong, or they ask for help. -/
inductive Stop
  | usage (e : UsageError)
  | help
deriving DecidableEq, Repr

/-- Reads a word in a radix. -/
def readWord (radix : Nat) (cs : List Char) : Except String Word :=
  match Text.readNumeral radix Word.count cs with
  | .ok n => .ok (BitVec.ofNat 64 n)
  | .error e => .error e.message

/-- Reads an address in hexadecimal, with or without a marker in front. -/
def readAddress (text : String) : Except String Word :=
  let digits := match text.toList with
    | '0' :: 'x' :: cs => cs
    | cs => cs
  (readWord 16 digits).mapError fun e => "invalid address " ++ text ++ ": " ++ e

/-- Reads the number of runs, of which there is at least one. -/
def readRuns (text : String) : Except String Nat := do
  let n := (← readWord 10 text.toList).toNat
  if n = 0 then throw "0 is not in 1..18446744073709551615" else return n

/-- The arguments understood so far. -/
structure Collected where
  hex : Option String := none
  clobber : Option String := none
  seed : Option Word := none
  runs : Option Nat := none
  address : Option Word := none
  verbose : Bool := false
  /-- The option whose value has not been looked at yet, with the value if it is there. -/
  pending : Option (Valued × Option String) := none
  /-- Whether two dashes alone have ended the options. -/
  ended : Bool := false

namespace Collected

/-- Takes the value of an option. -/
def take (c : Collected) (o : Valued) (value : String) : Except Stop Collected :=
  let given := match o with
    | .hex => c.hex.isSome
    | .clobber => c.clobber.isSome
    | .seed => c.seed.isSome
    | .runs => c.runs.isSome
    | .address => c.address.isSome
  let checked {α : Type} (r : Except String α) : Except Stop α :=
    r.mapError fun reason => .usage (.invalidValue value o.shown reason)
  if given then .error (.usage (.repeated o.shown))
  else match o with
    | .hex => .ok { c with hex := some value }
    | .clobber => .ok { c with clobber := some value }
    | .seed => (checked (readWord 10 value.toList)).map fun w => { c with seed := some w }
    | .runs => (checked (readRuns value)).map fun n => { c with runs := some n }
    | .address => (checked (readAddress value)).map fun w => { c with address := some w }

/-- Takes the value that has been waiting. -/
def settle (c : Collected) : Except Stop Collected :=
  match c.pending with
  | none => .ok c
  | some (o, none) => .error (.usage (.missingValue o.shown))
  | some (o, some value) => { c with pending := none }.take o value

/-- Takes the option that shows more messages. -/
def takeVerbose (c : Collected) : Except Stop Collected := do
  let c ← c.settle
  if c.verbose then throw (.usage (.repeated "--verbose")) else return { c with verbose := true }

/-- Stops for help. -/
def takeHelp (c : Collected) : Except Stop Collected := do
  let _ ← c.settle
  throw .help

/-- Takes a long option, given without its dashes. -/
def takeLong (c : Collected) (body : List Char) : Except Stop Collected :=
  let name := String.ofList (body.takeWhile (· ≠ '='))
  let value : Option String := match body.dropWhile (· ≠ '=') with
    | _ :: value => some (String.ofList value)
    | [] => none
  match Valued.ofName? name, value with
  | some o, some value => do (← c.settle).take o value
  | some o, none => do return { (← c.settle) with pending := some (o, none) }
  | none, value =>
    if name = "verbose" ∨ name = "help" then
      match value with
      | some value => .error (.usage (.unexpectedValue value ("--" ++ name)))
      | none => if name = "verbose" then c.takeVerbose else c.takeHelp
    else .error (.usage (.unexpected ("--" ++ name)))

/-- Takes short options, given without their dash. -/
def takeShort (c : Collected) : List Char → Except Stop Collected
  | [] => .ok c
  | 'v' :: rest => do (← c.takeVerbose).takeShort rest
  | 'h' :: _ => c.takeHelp
  | o :: _ => .error (.usage (.unexpected (String.ofList ['-', o])))

/-- Takes an argument that is not an option. -/
def takePlain (c : Collected) (argument : String) : Except Stop Collected :=
  match c.pending with
  | some (o, none) => .ok { c with pending := some (o, some argument) }
  | _ => .error (.usage (.unexpected argument))

/-- Takes one argument. -/
def takeArgument (c : Collected) (argument : String) : Except Stop Collected :=
  if c.ended then .error (.usage (.unexpected argument))
  else match argument.toList with
    | ['-', '-'] => .ok { c with ended := true }
    | '-' :: '-' :: body => c.takeLong body
    | ['-'] => c.takePlain argument
    | '-' :: body => c.takeShort body
    | _ => c.takePlain argument

end Collected

/-- The options that the arguments of the command give. -/
def Options.ofArguments (arguments : List String) : Except Stop Options := do
  let c ← arguments.foldlM Collected.takeArgument {}
  let c ← c.settle
  match c.hex with
  | none => throw (.usage .missingRequired)
  | some hex =>
    return {
      hex := hex
      clobber := c.clobber
      seed := c.seed.getD 0
      runs := c.runs.getD 1
      address := c.address.getD 0x401000
      verbose := c.verbose }

end Rerun.Command
