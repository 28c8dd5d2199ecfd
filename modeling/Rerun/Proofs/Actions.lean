import Rerun.Action

/-!
# How actions end

What an action gives and the state it leaves, with its journal left open. In a sequence, the second
action starts where the first one ended, unless that one ended with a fault. Where the journal
matters, an action is an equation between outcomes (`bind_ok_eq`).
-/

namespace Rerun.Action

variable {σ τ α β : Type}

/-- Started in `s`, `x` ends with `r` and leaves `s'`. -/
def Ends (x : Action σ α) (s : σ) (r : Except Fault α) (s' : σ) : Prop :=
  (x s).result = r ∧ (x s).state = s'

variable {x : Action σ α} {f : α → Action σ β} {s s' s'' : σ}

theorem Ends.unique {r q : Except Fault α} (h : x.Ends s r s') (h' : x.Ends s q s'') :
    r = q ∧ s' = s'' :=
  ⟨h.1.symm.trans h'.1, h.2.symm.trans h'.2⟩

theorem ends_of_eq {r : Except Fault α} {written : List Record} (h : x s = ⟨r, s', written⟩) :
    x.Ends s r s' := by
  rw [Ends, h]
  exact ⟨rfl, rfl⟩

theorem ends_pure (a : α) (s : σ) : (pure a : Action σ α).Ends s (.ok a) s := ⟨rfl, rfl⟩

theorem ends_get (s : σ) : (get : Action σ σ).Ends s (.ok s) s := ⟨rfl, rfl⟩

theorem ends_modify (g : σ → σ) (s : σ) : (modify g : Action σ PUnit).Ends s (.ok ⟨⟩) (g s) :=
  ⟨rfl, rfl⟩

theorem ends_modifyGet {g : σ → α × σ} {s s' : σ} {a : α} (h : g s = (a, s')) :
    (modifyGet g : Action σ α).Ends s (.ok a) s' := by
  show Except.ok (g s).1 = .ok a ∧ (g s).2 = s'
  rw [h]
  exact ⟨rfl, rfl⟩

theorem ends_fail (e : Fault) (s : σ) : (fail e : Action σ α).Ends s (.error e) s := ⟨rfl, rfl⟩

theorem ends_say (level : Level) (part : Part) (text : String) (s : σ) :
    (say level part text : Action σ Unit).Ends s (.ok ()) s := ⟨rfl, rfl⟩

theorem Ends.bind {a : α} {r : Except Fault β} (hx : x.Ends s (.ok a) s')
    (hf : (f a).Ends s' r s'') : (x >>= f).Ends s r s'' := by
  obtain ⟨hr, rfl⟩ := hx
  have hx : x s = ⟨.ok a, (x s).state, (x s).journal⟩ := by rw [← hr]
  rw [Ends, bind_apply_ok hx]
  exact hf

theorem Ends.bind_error {e : Fault} (hx : x.Ends s (.error e) s') :
    (x >>= f).Ends s (.error e) s' := by
  obtain ⟨hr, rfl⟩ := hx
  have hx : x s = ⟨.error e, (x s).state, (x s).journal⟩ := by rw [← hr]
  exact ends_of_eq (bind_apply_error hx f)

theorem ends_set (s s' : σ) : (set s' : Action σ PUnit).Ends s (.ok ⟨⟩) s' := ⟨rfl, rfl⟩

theorem ends_record (r : Record) (s : σ) : (record r : Action σ Unit).Ends s (.ok ()) s :=
  ⟨rfl, rfl⟩

theorem Ends.on {y : Action τ α} {a : α} {t t' : τ} (h : y.Ends t (.ok a) t') (s : σ) :
    (y.on t : Action σ (α × τ)).Ends s (.ok (a, t')) s := by
  obtain ⟨hr, rfl⟩ := h
  refine ⟨?_, rfl⟩
  show (y t).result.map (fun a => (a, (y t).state)) = .ok (a, (y t).state)
  rw [hr]
  rfl

theorem Ends.on_error {y : Action τ α} {e : Fault} {t t' : τ} (h : y.Ends t (.error e) t') (s : σ) :
    (y.on t : Action σ (α × τ)).Ends s (.error e) s := by
  refine ⟨?_, rfl⟩
  show (y t).result.map (fun a => (a, (y t).state)) = .error e
  rw [h.1]
  rfl

/-- An action on a state of its own leaves the other one alone. -/
theorem Ends.of_on {y : Action τ α} {a : α} {t t' : τ}
    (h : (y.on t : Action σ (α × τ)).Ends s (.ok (a, t')) s') : y.Ends t (.ok a) t' ∧ s' = s := by
  obtain ⟨hr, rfl⟩ := h
  refine ⟨?_, rfl⟩
  show (y t).result = .ok a ∧ (y t).state = t'
  change (y t).result.map (fun a => (a, (y t).state)) = .ok (a, t') at hr
  rcases hy : (y t).result with e | b
  · rw [hy] at hr
    cases hr
  · rw [hy] at hr
    cases hr
    exact ⟨rfl, rfl⟩

/-- If a sequence ends with a value, so does its first action, and the second starts there. -/
theorem Ends.of_bind {b : β} (h : (x >>= f).Ends s (.ok b) s'') :
    ∃ a s', x.Ends s (.ok a) s' ∧ (f a).Ends s' (.ok b) s'' := by
  rcases hr : (x s).result with e | a
  · cases (Ends.unique h (Ends.bind_error ⟨hr, rfl⟩)).1
  · refine ⟨a, (x s).state, ⟨hr, rfl⟩, ?_⟩
    obtain ⟨hres, hstate⟩ := Ends.unique h (Ends.bind ⟨hr, rfl⟩ ⟨rfl, rfl⟩)
    exact ⟨hres.symm, hstate.symm⟩

/-! ## Actions on related states -/

/-- Started in `g s`, `x` ends as it ends in `s`, and leaves the `g` of what it leaves there. -/
def Commutes (x : Action σ α) (g : σ → σ) : Prop :=
  ∀ s, x.Ends (g s) (x s).result (g (x s).state)

variable {g : σ → σ}

theorem commutes_pure (a : α) (g : σ → σ) : (pure a : Action σ α).Commutes g :=
  fun s => ends_pure a (g s)

theorem Commutes.bind (hx : x.Commutes g) (hf : ∀ a, (f a).Commutes g) : (x >>= f).Commutes g := by
  intro s
  have hs := hx s
  rcases hr : (x s).result with e | a
  · have h : (x >>= f).Ends s (.error e) (x s).state := Ends.bind_error ⟨hr, rfl⟩
    rw [hr] at hs
    rw [h.1, h.2]
    exact hs.bind_error
  · have h : (x >>= f).Ends s (f a (x s).state).result (f a (x s).state).state :=
      Ends.bind ⟨hr, rfl⟩ ⟨rfl, rfl⟩
    rw [hr] at hs
    rw [h.1, h.2]
    exact hs.bind (hf a (x s).state)

theorem Commutes.ends {r : Except Fault α} (hx : x.Commutes g) (h : x.Ends s r s') :
    x.Ends (g s) r (g s') := by
  obtain ⟨rfl, rfl⟩ := h
  exact hx s

/-! ## Outcomes in full -/

/-- After an action that writes nothing. -/
theorem bind_quiet {x : Action σ α} {a : α} {s s' : σ} (h : x s = ⟨.ok a, s', []⟩)
    (f : α → Action σ β) : (x >>= f) s = f a s' := by
  rw [bind_apply_ok h, List.nil_append]

theorem bind_quiet_eq {x : Action σ α} {f : α → Action σ β} {a : α} {s s' : σ} {o : Outcome σ β}
    (h : x s = ⟨.ok a, s', []⟩) (hf : f a s' = o) : (x >>= f) s = o :=
  (bind_quiet h f).trans hf

theorem bind_ok_eq {x : Action σ α} {f : α → Action σ β} {a : α} {s s' s'' : σ}
    {r : Except Fault β} {written more : List Record} (h : x s = ⟨.ok a, s', written⟩)
    (hf : f a s' = ⟨r, s'', more⟩) : (x >>= f) s = ⟨r, s'', written ++ more⟩ := by
  rw [bind_apply_ok h, hf]

theorem bind_said_eq {level : Level} {part : Part} {text : String} {f : Unit → Action σ β}
    {s s' : σ} {r : Except Fault β} {written : List Record} (hf : f () s = ⟨r, s', written⟩) :
    (say level part text >>= f) s = ⟨r, s', .message ⟨level, part, text⟩ :: written⟩ := by
  have hs : (say level part text : Action σ Unit) s
      = ⟨.ok (), s, [.message ⟨level, part, text⟩]⟩ := rfl
  rw [bind_apply_ok hs, hf, List.singleton_append]

end Rerun.Action
