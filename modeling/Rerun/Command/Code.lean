import Rerun.Text.Blank
import Rerun.Text.Numeral
import Rerun.Text.Quoted

/-!
# Machine code as text

Machine code is given in hexadecimal, two characters a byte, with blanks anywhere.
-/

namespace Rerun.Command

/-- Why a text is no machine code. -/
inductive CodeError
  | oddDigits
  | invalidByte (pair : String)
deriving DecidableEq, Repr

namespace CodeError

/-- The text shown for the error. -/
def message : CodeError → String
  | oddDigits => "odd number of hex digits"
  | invalidByte pair => "invalid hex byte " ++ Text.quoted pair

end CodeError

/-- Reads the bytes that pairs of characters stand for. -/
def readPairs : List Char → Except CodeError (List Byte)
  | a :: b :: rest => do
    match Text.readNumeral 16 256 [a, b] with
    | .ok n => return BitVec.ofNat 8 n :: (← readPairs rest)
    | .error _ => throw (.invalidByte (String.ofList [a, b]))
  | _ => .ok []

/-- Reads machine code. -/
def readCode (text : String) : Except CodeError (List Byte) :=
  let digits := text.toList.filter fun c => !Text.isBlank c
  if digits.length % 2 = 0 then readPairs digits else .error .oddDigits

end Rerun.Command
