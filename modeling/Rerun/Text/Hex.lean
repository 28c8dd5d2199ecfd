import Rerun.Word

/-!
# Hexadecimal text

Words are written after `0x` with as few lowercase digits as they need; byte strings with two
digits a byte, the most significant byte first.
-/

namespace Rerun.Hex

/-- The lowercase digits of `n`, most significant first; zero is one digit. -/
def digits (n : Nat) : List Char := Nat.toDigits 16 n

/-- The two digits of a byte. -/
def pair (b : Byte) : List Char := [Nat.digitChar (b.toNat / 16), Nat.digitChar (b.toNat % 16)]

/-- The digits of a byte string, in the order given. -/
def pairs (bs : List Byte) : List Char := bs.flatMap pair

/-- A word after its marker. -/
def word (w : Word) : String := String.ofList ('0' :: 'x' :: digits w.toNat)

/-- A byte string as one number: the bytes are given least significant first. -/
def number (bs : List Byte) : String := String.ofList ('0' :: 'x' :: pairs bs.reverse)

end Rerun.Hex
