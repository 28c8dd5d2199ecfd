import Rerun.Fault
import Rerun.Journal

/-!
# Actions

An action works on a state and writes to the journal. It ends with a value or with a fault; in
both cases the state it reached and the records it wrote remain.
-/

namespace Rerun

/-- How an action ended, the state it left, and what it wrote. -/
structure Outcome (σ α : Type) where
  result : Except Fault α
  state : σ
  journal : List Record

/-- A computation on a state `σ` that gives an `α`. -/
def Action (σ α : Type) : Type := σ → Outcome σ α

namespace Action

variable {σ τ α β : Type}

/-- Gives `a` and does nothing. -/
protected def pure (a : α) : Action σ α := fun s => ⟨.ok a, s, []⟩

/-- First `x`, then, unless `x` ended with a fault, what `f` says for its value. -/
protected def bind (x : Action σ α) (f : α → Action σ β) : Action σ β := fun s =>
  match x s with
  | ⟨.ok a, s, written⟩ =>
    let o := f a s
    ⟨o.result, o.state, written ++ o.journal⟩
  | ⟨.error e, s, written⟩ => ⟨.error e, s, written⟩

instance : Monad (Action σ) where
  pure := Action.pure
  bind := Action.bind

/-- The state. -/
protected def get : Action σ σ := fun s => ⟨.ok s, s, []⟩

/-- Replaces the state. -/
protected def set (s : σ) : Action σ Unit := fun _ => ⟨.ok (), s, []⟩

/-- Replaces the state by a function of it, which also gives the value. -/
protected def modifyGet (f : σ → α × σ) : Action σ α := fun s => ⟨.ok (f s).1, (f s).2, []⟩

instance : MonadStateOf σ (Action σ) where
  get := Action.get
  set := Action.set
  modifyGet := Action.modifyGet

/-- Ends with a fault. -/
def fail (e : Fault) : Action σ α := fun s => ⟨.error e, s, []⟩

/-- Goes on with the value of `x`, or ends with its fault. -/
def ofExcept : Except Fault α → Action σ α
  | .ok a => pure a
  | .error e => fail e

/-- Adds a record to the journal. -/
def record (r : Record) : Action σ Unit := fun s => ⟨.ok (), s, [r]⟩

/-- Writes a message. -/
def say (level : Level) (part : Part) (text : String) : Action σ Unit :=
  record (.message ⟨level, part, text⟩)

/-- Runs an action on a state of its own and gives that state back with the value. If the action
faults, its state is lost. -/
def on (x : Action τ α) (t : τ) : Action σ (α × τ) := fun s =>
  let o := x t
  ⟨o.result.map fun a => (a, o.state), s, o.journal⟩

theorem pure_apply (a : α) (s : σ) : (pure a : Action σ α) s = ⟨.ok a, s, []⟩ := rfl

theorem bind_apply (x : Action σ α) (f : α → Action σ β) (s : σ) :
    (x >>= f) s = Action.bind x f s := rfl

theorem bind_apply_ok {x : Action σ α} {a : α} {s s' : σ} {written : List Record}
    (h : x s = ⟨.ok a, s', written⟩) (f : α → Action σ β) :
    (x >>= f) s = ⟨(f a s').result, (f a s').state, written ++ (f a s').journal⟩ := by
  rw [bind_apply, Action.bind, h]

theorem bind_apply_error {x : Action σ α} {e : Fault} {s s' : σ} {written : List Record}
    (h : x s = ⟨.error e, s', written⟩) (f : α → Action σ β) :
    (x >>= f) s = ⟨.error e, s', written⟩ := by
  rw [bind_apply, Action.bind, h]

/-- Actions compose in sequence: what is written comes in the order of the actions. -/
instance : LawfulMonad (Action σ) :=
  LawfulMonad.mk' (Action σ)
    (by
      intro α x
      funext s
      show Action.bind x Action.pure s = x s
      rw [Action.bind]
      rcases x s with ⟨_ | a, s', written⟩ <;> simp [Action.pure])
    (by intro α β a f; rfl)
    (by
      intro α β γ x f g
      funext s
      show Action.bind (Action.bind x f) g s = Action.bind x (fun a => Action.bind (f a) g) s
      simp only [Action.bind]
      rcases x s with ⟨_ | a, s', written⟩
      · rfl
      · simp only []
        rcases f a s' with ⟨_ | b, s'', more⟩ <;> simp)

end Action

end Rerun
