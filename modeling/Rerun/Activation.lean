import Rerun.Checker

/-!
# Activation

Several users may ask for one checker. It is set up for the first of them and taken down when the
last one lets go; a count keeps track. If setting up fails, nothing is counted.
-/

namespace Rerun

/-- What became of a request. -/
inductive Status
  /-- The checker has been set up, or taken down. -/
  | success
  /-- It was there already; only the count has changed. -/
  | alreadyInitialized
  /-- It has not been taken down. -/
  | notInitialized
  /-- Setting up or taking down has failed. -/
  | error
deriving DecidableEq, Repr

namespace Status

/-- The name of a status. -/
def name : Status → String
  | success => "Success"
  | alreadyInitialized => "AlreadyInitialized"
  | notInitialized => "NotInitialized"
  | error => "Error"

end Status

/-- A checker that is set up on demand. -/
structure Activation where
  config : Config
  count : Nat
  checker : Option Checker
deriving DecidableEq, Repr

namespace Activation

/-- A checker that nobody has asked for yet. -/
def new (config : Config) : Activation := ⟨config, 0, none⟩

/-- Asks for the checker. -/
def activate (a : Activation) : Action Host (Status × Activation) := do
  if a.count ≠ 0 then return (.alreadyInitialized, { a with count := a.count + 1 })
  match ← Checker.register a.config with
  | .ok c => return (.success, { a with count := 1, checker := some c })
  | .error e =>
    Action.say .error .activation ("statecmp activation failed: " ++ e.message)
    return (.error, a)

/-- Lets go of the checker. -/
def deactivate (a : Activation) : Action Host (Status × Activation) := do
  if a.count = 0 then return (.notInitialized, a)
  let a := { a with count := a.count - 1 }
  if a.count ≠ 0 then return (.notInitialized, a)
  match a.checker with
  | none => return (.notInitialized, a)
  | some c =>
    let a := { a with checker := none }
    match ← c.unregister with
    | .ok () => return (.success, a)
    | .error e =>
      Action.say .error .activation ("statecmp teardown failed: " ++ e.message)
      return (.error, a)

end Activation

end Rerun
