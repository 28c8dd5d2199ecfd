/-!
# Letter case

Names of registers are compared without regard to case. Only the letters `A` to `Z` have a
second case here; every other character stands for itself.
-/

namespace Rerun.Text

/-- The text with the letters `A` to `Z` made small. -/
def lower (s : String) : String := String.ofList (s.toList.map Char.toLower)

/-- Whether two names differ at most in the case of their letters. -/
def sameLetters (a b : String) : Bool := lower a == lower b

theorem sameLetters_iff {a b : String} : sameLetters a b = true ↔ lower a = lower b := by
  simp [sameLetters]

end Rerun.Text
