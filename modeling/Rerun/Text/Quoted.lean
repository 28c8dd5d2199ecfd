import Rerun.Text.Hex
import Rerun.Text.Visible

/-!
# Quoted text

Text between double quotes, on one line and readable: quotes and backslashes are marked with a
backslash, the common controls have short forms, and characters that cannot be shown are given by
number.
-/

namespace Rerun.Text

/-- The form of a character between quotes. -/
def escape (c : Char) : List Char :=
  match c with
  | '\x00' => ['\\', '0']
  | '\t' => ['\\', 't']
  | '\r' => ['\\', 'r']
  | '\n' => ['\\', 'n']
  | '\x22' => ['\\', '\x22']
  | '\\' => ['\\', '\\']
  | c =>
    if isVisible c then [c] else ['\\', 'u', '\x7b'] ++ Hex.digits c.toNat ++ ['\x7d']

/-- Text between quotes. -/
def quoted (s : String) : String :=
  String.ofList (['\x22'] ++ s.toList.flatMap escape ++ ['\x22'])

end Rerun.Text
