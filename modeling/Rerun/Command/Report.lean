import Rerun.Command.Run

/-!
# What the command reports

The exit code and the lines on the two output channels. The code is 0 if all runs have passed, 1
if one found a mismatch, 2 if the command gave up, and 101 if a fault that is no mismatch ended
it.
-/

namespace Rerun.Command

/-- What the command leaves behind. -/
structure Report where
  code : Nat
  output : List String
  errors : List String
deriving DecidableEq, Repr

/-- The lines of a text. A line ends at a line feed, and a carriage return just before that belongs
to the end; an end of line at the very end begins no line. -/
def lines (text : String) : List String :=
  let rec go (line : List Char) : List Char → List String
    | [] => if line.isEmpty then [] else [String.ofList line.reverse]
    | '\n' :: rest =>
      let line := match line with
        | '\r' :: line => line
        | line => line
      String.ofList line.reverse :: go [] rest
    | c :: rest => go (c :: line) rest
  go [] text.toList

/-- The first line of a text. -/
def firstLine (text : String) : String := (lines text).headD ""

/-- A message as a line, the name of its level as wide as the widest. -/
def messageLine (m : Message) : String :=
  let level := m.level.name
  "[" ++ level ++ String.ofList (List.replicate (5 - level.length) ' ') ++ " " ++ m.part.name
    ++ "] " ++ m.text

/-- Whether a message is shown. -/
def shows (verbose : Bool) (m : Message) : Bool :=
  m.level.rank ≤ (if verbose then Level.debug else Level.warn).rank

/-- The text shown for a request for help. -/
def helpLines : List String :=
  ["Check a basic block for instrumentation-induced state corruption",
    "",
    "Usage: statecmp [OPTIONS] --hex <HEX>",
    "",
    "Options:",
    "      --hex <HEX>          Machine code of the block, as hex bytes (whitespace allowed)",
    "      --clobber <CLOBBER>  Register overwritten by a simulated faulty tool before the checker runs",
    "      --seed <SEED>        Seed of the first random register file [default: 0]",
    "      --runs <RUNS>        Number of executions, each from a fresh random register file [default: 1]",
    "      --ip <IP>            Address the block is decoded at [default: 0x401000]",
    "  -v, --verbose            Show debug output",
    "  -h, --help               Print help"]

/-- The report of a command that got as far as running. -/
def Report.ofOutcome (o : Options) (outcome : Outcome Console (Except Failure Bool)) : Report :=
  let output := lines outcome.state.printed
  let errors := ((outcome.journal.filterMap Record.message?).filter (shows o.verbose)).map messageLine
  match outcome.result with
  | .ok (.ok true) =>
    ⟨0, output ++ ["ok: " ++ toString o.runs ++ " run(s) without state mismatch"], errors⟩
  | .ok (.ok false) => ⟨1, output, errors⟩
  | .ok (.error e) => ⟨2, output, errors ++ lines ("Error: " ++ e.message ++ "\n")⟩
  | .error e => ⟨101, output, errors ++ lines e.message⟩

/-- The whole command, from its arguments to its report. Of an error in the arguments only the
first line is shown, and of that only the text, since the channel is no terminal. -/
def report (arguments : List String) (decoder : Decoder) : Report :=
  match Options.ofArguments arguments with
  | .error .help => ⟨0, helpLines, []⟩
  | .error (.usage e) => ⟨2, [], [firstLine (Text.plain e.notice)]⟩
  | .ok o => .ofOutcome o (run o decoder .new)

end Rerun.Command
