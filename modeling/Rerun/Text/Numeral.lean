/-!
# Numerals

Unsigned numbers in a given radix. A single plus sign may stand in front of the digits; letters
count as digits in either case.
-/

namespace Rerun.Text

/-- Why a text is no numeral of the wanted range. -/
inductive NumeralError
  | empty
  | invalidDigit
  | tooLarge
deriving DecidableEq, Repr

namespace NumeralError

/-- The text shown for the error. -/
def message : NumeralError → String
  | empty => "cannot parse integer from empty string"
  | invalidDigit => "invalid digit found in string"
  | tooLarge => "number too large to fit in target type"

end NumeralError

/-- The value of a digit, whatever the radix; only the digits and letters of ASCII have one. -/
def digitValue? (c : Char) : Option Nat :=
  if '0' ≤ c ∧ c ≤ '9' then some (c.toNat - '0'.toNat)
  else if 'a' ≤ c ∧ c ≤ 'z' then some (c.toNat - 'a'.toNat + 10)
  else if 'A' ≤ c ∧ c ≤ 'Z' then some (c.toNat - 'A'.toNat + 10)
  else none

/-- The value of a digit in a radix. -/
def digit? (radix : Nat) (c : Char) : Option Nat := (digitValue? c).filter (· < radix)

/-- Reads digits behind a number that stands at `value`; every number on the way stays below
`limit`. The first character that does not do decides the error. -/
def readDigits (radix limit : Nat) (value : Nat) : List Char → Except NumeralError Nat
  | [] => .ok value
  | c :: rest =>
    match digit? radix c with
    | none => .error .invalidDigit
    | some d =>
      if value * radix + d < limit then readDigits radix limit (value * radix + d) rest
      else .error .tooLarge

/-- Reads a number below `limit`. A sign alone is not a number. -/
def readNumeral (radix limit : Nat) : List Char → Except NumeralError Nat
  | [] => .error .empty
  | ['+'] => .error .invalidDigit
  | '+' :: cs => readDigits radix limit 0 cs
  | cs => readDigits radix limit 0 cs

end Rerun.Text
