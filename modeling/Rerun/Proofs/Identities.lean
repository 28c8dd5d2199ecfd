import Mathlib.Data.List.Nodup
import Mathlib.Logic.Function.Basic
import Mathlib.Tactic.Set
import Rerun.Proofs.Growing

/-!
# Identities over a whole session

A client works on any number of lists (`Desk`). Entries are made, go into a list, out of it and into
another one, or a list is transformed as a whole (`Operation`). Whatever the operations are, no
identity is there twice, so that an entry is found where it stands; and an entry that is not taken
out stays as it is and where it is among the others (`identities_kept`).
-/

namespace Rerun

open Draft

/-- The lists that are worked on. Under `none` are the entries that are in no list. -/
structure Desk where
  held : Option Nat → Block
  nextId : EntryId

namespace Desk

variable {α : Type}

/-- A desk with nothing on it. -/
def new : Desk := ⟨fun _ => [], 1⟩

def list (s : Desk) (k : Nat) : Block := s.held (some k)

def draft (s : Desk) (p : Option Nat) : Draft := ⟨s.held p, s.nextId⟩

def put (s : Desk) (p : Option Nat) (d : Draft) : Desk :=
  ⟨Function.update s.held p d.block, d.nextId⟩

/-- An action on one list. -/
def on (s : Desk) (p : Option Nat) (x : Action Draft α) : Desk := s.put p (x (s.draft p)).state

/-- Takes an entry that is in no list, for an action that puts it into one. -/
def lay (s : Desk) (id : EntryId) (k : Nat) (f : Entry → Action Draft α) : Desk :=
  match (s.held none).remove id with
  | some (e, rest) => (s.put none ⟨rest, s.nextId⟩).on (some k) (f e)
  | none => s

/-- Takes an entry out of a list. -/
def lift (s : Desk) (k : Nat) (target : EntryId) : Desk :=
  match Draft.remove target (s.draft (some k)) with
  | ⟨.ok (some e), d, _⟩ => (s.put (some k) d).on none (Draft.push e)
  | _ => s

end Desk

/-- What a client does with lists, which go by their numbers. -/
inductive Operation
  /-- Makes an entry. -/
  | make (content : Content) (isApp : Bool) (note : Option Note)
  /-- Makes an entry like another one. -/
  | duplicate (e : Entry)
  /-- Sets what an entry, that is in no list, says about itself. -/
  | revise (id : EntryId) (isApp : Bool) (note : Option Note)
  /-- Makes a list of new entries of the program. -/
  | build (k : Nat) (is : List X64.Instruction)
  /-- Puts an entry, that is in no list, at the end of one. -/
  | push (k : Nat) (id : EntryId)
  /-- Puts an entry, that is in no list, in front of `target` or behind it. -/
  | insert (k : Nat) (target id : EntryId) (before : Bool)
  | insertCall (k : Nat) (target : EntryId) (c : Call)
  | insertMarker (k : Nat) (m : Markers) (target : EntryId) (kind : MarkerKind) (before : Bool)
  /-- Takes an entry out of a list. It may come back. -/
  | remove (k : Nat) (target : EntryId)
  | retain (k : Nat) (keep : Entry → Bool)
  /-- Puts the entries of list `j` behind those of list `k`. -/
  | append (k j : Nat)
  /-- Makes `k` a list of entries like those of list `j`. -/
  | clone (j k : Nat)
  | double (k : Nat) (m : Markers)
  | install (k : Nat) (l : Layout) (slot : Nat) (arch : Arch)
  | processBlock (k : Nat) (c : Checker)
  /-- A host lets its checkers process a list. -/
  | process (k : Nat) (cs : List Checker) (t : Thread) (forTrace rebuilding : Bool)

namespace Operation

/-- The lists after an operation, whether it ended with a fault or not. -/
def perform (s : Desk) : Operation → Desk
  | make content isApp note => s.on none do Draft.push (← Draft.entry content isApp note)
  | duplicate e => s.on none do Draft.push (← Draft.duplicate e)
  | revise id isApp note => s.on none <| modify fun d =>
    { d with block := d.block.map fun e => if e.id = id then { e with isApp, note } else e }
  | build k is => s.on (some k) do Draft.setBlock (← Draft.appAll is)
  | push k id => s.lay id k Draft.push
  | insert k target id before => s.lay id k fun e =>
    if before then Draft.insertBefore target e else Draft.insertAfter target e
  | insertCall k target c => s.on (some k) (Draft.insertCall target c)
  | insertMarker k m target kind before => s.on (some k) (m.insert target kind before)
  | remove k target => s.lift k target
  | retain k keep => s.on (some k) (Draft.retain keep)
  | append k j =>
    if j = k then s else (s.put (some j) ⟨[], s.nextId⟩).on (some k) (Draft.append (s.list j))
  | clone j k => s.on (some k) do Draft.setBlock (← Draft.duplicateAll (s.list j))
  | double k m => s.on (some k) m.double
  | install k l slot arch => s.on (some k) (l.install slot arch)
  | processBlock k c => s.on (some k) c.processBlock
  | process k cs t forTrace rebuilding =>
    s.on (some k) (Host.tellBuilt t forTrace rebuilding (cs.map Checker.registration))

/-- The entries that an operation takes out: what is removed, what is not retained, the terminator
of a block that is doubled, and what was in a list that is made anew. -/
def gone (s : Desk) : Operation → List EntryId
  | build k _ | clone _ k => (s.list k).map (·.id)
  | remove k target => if (s.list k).has target then [target] else []
  | retain k keep => ((s.list k).filter (!keep ·)).map (·.id)
  | double k m => Markers.takenOut (s.list k) (m.double (s.draft (some k))).result
  | processBlock k c => c.takenOut (s.draft (some k))
  | process k cs _ _ _ => Checker.allTakenOut cs (s.draft (some k))
  | _ => []

/-- The list in which the entries of list `l` are after an operation. -/
def home (l : Nat) : Operation → Nat
  | append k j => if l = j then k else l
  | _ => l

end Operation

namespace Desk

/-- The lists after operations. -/
def run (s : Desk) : List Operation → Desk
  | [] => s
  | op :: rest => (op.perform s).run rest

/-- What operations take out. -/
def gone (s : Desk) : List Operation → List EntryId
  | [] => []
  | op :: rest => op.gone s ++ (op.perform s).gone rest

/-- The list in which the entries of list `l` are after operations. -/
def home (l : Nat) : List Operation → Nat
  | [] => l
  | op :: rest => home (op.home l) rest

variable {s s' s'' : Desk} {p q : Option Nat} {d : Draft} {e : Entry} {a c : Block}
  {out out' : List EntryId} {move move' : Nat → Nat}

/-! ## No identity twice -/

/-- No identity is there twice, and all of them have been given out. -/
structure Numbered (s : Desk) : Prop where
  nodup : ∀ p, ((s.held p).map (·.id)).Nodup
  apart : ∀ p q, p ≠ q → ∀ e ∈ s.held p, ∀ e' ∈ s.held q, e.id ≠ e'.id
  old : ∀ p, ∀ e ∈ s.held p, e.id < s.nextId

theorem numbered_new : new.Numbered where
  nodup _ := List.nodup_nil
  apart _ _ _ _ he := absurd he List.not_mem_nil
  old _ _ he := absurd he List.not_mem_nil

theorem Numbered.draft (hs : s.Numbered) (p : Option Nat) : (s.draft p).Numbered where
  nodup := hs.nodup p
  old := hs.old p

@[simp] theorem held_put_self (s : Desk) (p : Option Nat) (d : Draft) :
    (s.put p d).held p = d.block := Function.update_self _ _ _

theorem held_put_of_ne (h : q ≠ p) (d : Draft) : (s.put p d).held q = s.held q :=
  Function.update_of_ne h _ _

theorem list_put_none (s : Desk) (d : Draft) (k : Nat) : (s.put none d).list k = s.list k :=
  held_put_of_ne (Option.some_ne_none k) d

/-- A list may be replaced by entries that are in no other one. -/
theorem Numbered.put (hs : s.Numbered) (hd : d.Numbered) (hle : s.nextId ≤ d.nextId)
    (hown : ∀ e ∈ d.block, ∀ q, q ≠ p → ∀ e' ∈ s.held q, e'.id ≠ e.id) :
    (s.put p d).Numbered := by
  refine ⟨fun q => ?_, fun q r hqr e he e' he' => ?_, fun q e he => ?_⟩
  · by_cases hq : q = p
    · rw [hq, held_put_self]
      exact hd.nodup
    · rw [held_put_of_ne hq]
      exact hs.nodup q
  · by_cases hq : q = p
    · rw [hq, held_put_self] at he
      have hr : r ≠ p := fun hr => hqr (hq.trans hr.symm)
      rw [held_put_of_ne hr] at he'
      exact (hown e he r hr e' he').symm
    · rw [held_put_of_ne hq] at he
      by_cases hr : r = p
      · rw [hr, held_put_self] at he'
        exact hown e' he' q hq e he
      · rw [held_put_of_ne hr] at he'
        exact hs.apart q r hqr e he e' he'
  · by_cases hq : q = p
    · rw [hq, held_put_self] at he
      exact hd.old e he
    · rw [held_put_of_ne hq] at he
      exact Nat.lt_of_lt_of_le (hs.old q e he) hle

/-- From `s` to `s'` no identity comes to be there twice, and the entries of each list that are not
in `out` are in the list that `move` says, in their order. -/
structure Carries (out : List EntryId) (move : Nat → Nat) (s s' : Desk) : Prop where
  numbered : s'.Numbered
  kept : ∀ k, (s.list k).Keeps out (s'.list (move k))

theorem carries_refl (hs : s.Numbered) : Carries [] (fun k => k) s s where
  numbered := hs
  kept _ := Block.keeps_refl _ _

theorem Carries.trans (h : Carries out move s s') (h' : Carries out' move' s' s'') :
    Carries (out ++ out') (fun k => move' (move k)) s s'' where
  numbered := h'.numbered
  kept k := (h.kept k).trans (h'.kept (move k))

/-- A list whose entries are new or its own. -/
theorem carries_put (hs : s.Numbered) (hd : Grows out (s.draft p) d) :
    Carries out (fun k => k) s (s.put p d) where
  numbered := by
    refine hs.put hd.numbered hd.next fun e he q hq e' he' => ?_
    rcases hd.fresh e he with hmem | hnew
    · exact hs.apart q p hq e' he' e hmem
    · exact Nat.ne_of_lt (Nat.lt_of_lt_of_le (hs.old q e' he') hnew)
  kept k := by
    by_cases hk : some k = p
    · subst hk
      rw [list, list, held_put_self]
      exact hd.kept
    · rw [list, list, held_put_of_ne hk]
      exact Block.keeps_refl _ _

theorem carries_on {α : Type} {x : Action Draft α} (hs : s.Numbered)
    (hx : Grows out (s.draft p) (x (s.draft p)).state) : Carries out (fun k => k) s (s.on p x) :=
  carries_put hs hx

/-! ## From one place to another -/

/-- An entry that is nowhere may be put anywhere. -/
theorem Numbered.insert (hs : s.Numbered) (hnew : ∀ q, ∀ e' ∈ s.held q, e'.id ≠ e.id)
    (hlt : e.id < s.nextId) (hp : s.held p = a ++ c) :
    (s.put p ⟨a ++ e :: c, s.nextId⟩).Numbered := by
  have hperm : (a ++ e :: c).Perm (e :: s.held p) := hp ▸ List.perm_middle
  refine hs.put ⟨?_, fun x hx => ?_⟩ (Nat.le_refl _) fun x hx q hq e' he' => ?_
  · refine ((hperm.map (·.id)).nodup_iff).2 (List.nodup_cons.2 ⟨?_, hs.nodup p⟩)
    intro hmem
    obtain ⟨e', he', heq⟩ := List.mem_map.1 hmem
    exact hnew p e' he' heq
  · rcases List.mem_cons.1 (hperm.mem_iff.1 hx) with rfl | hx
    · exact hlt
    · exact hs.old p x hx
  · rcases List.mem_cons.1 (hperm.mem_iff.1 hx) with rfl | hx
    · exact hnew q e' he'
    · exact hs.apart q p hq e' he' x hx

/-- An entry that has been taken out is nowhere. -/
theorem Numbered.takeOut (hs : s.Numbered) (hp : s.held p = a ++ e :: c) :
    (s.put p ⟨a ++ c, s.nextId⟩).Numbered
      ∧ (∀ q, ∀ e' ∈ (s.put p ⟨a ++ c, s.nextId⟩).held q, e'.id ≠ e.id) ∧ e.id < s.nextId := by
  have hsub : (a ++ c).Sublist (s.held p) := by
    rw [hp]
    exact (List.Sublist.refl a).append (List.sublist_cons_self e c)
  have he : e ∈ s.held p := by simp [hp]
  refine ⟨?_, fun q e' he' => ?_, hs.old p e he⟩
  · refine hs.put ⟨(hs.nodup p).sublist (hsub.map _), fun x hx => hs.old p x (hsub.subset hx)⟩
      (Nat.le_refl _) fun x hx q hq e' he' => hs.apart q p hq e' he' x (hsub.subset hx)
  · by_cases hq : q = p
    · rw [hq, held_put_self] at he'
      exact Block.ne_of_nodup (hp ▸ hs.nodup p) e' he'
    · rw [held_put_of_ne hq] at he'
      exact hs.apart q p hq e' he' e he

/-- An action that puts an entry somewhere into a block, or nowhere. -/
def Places {α : Type} (x : Action Draft α) (e : Entry) : Prop :=
  ∀ d, (x d).state = d ∨ ∃ a c, d.block = a ++ c ∧ (x d).state = ⟨a ++ e :: c, d.nextId⟩

theorem places_push (e : Entry) : Places (Draft.push e) e := fun d =>
  .inr ⟨d.block, [], (List.append_nil _).symm, rfl⟩

theorem places_edit {f : Block → Option Block}
    (hf : ∀ {b b'}, f b = some b' → ∃ a c, b = a ++ c ∧ b' = a ++ e :: c) :
    Places (Draft.edit e.id f) e := by
  intro d
  rw [Draft.edit, Action.bind_quiet (get_apply d)]
  rcases hb : f d.block with _ | b
  · exact .inl rfl
  · obtain ⟨a, c, hac, rfl⟩ := hf hb
    exact .inr ⟨a, c, hac, rfl⟩

theorem Carries.put_insert (h : Carries out move s s') (hnew : ∀ q, ∀ e' ∈ s'.held q, e'.id ≠ e.id)
    (hlt : e.id < s'.nextId) (hp : s'.held p = a ++ c) :
    Carries out move s (s'.put p ⟨a ++ e :: c, s'.nextId⟩) where
  numbered := h.numbered.insert hnew hlt hp
  kept l := by
    have hsub : (s'.list (move l)).Sublist ((s'.put p ⟨a ++ e :: c, s'.nextId⟩).list (move l)) := by
      by_cases hl : some (move l) = p
      · subst hl
        rw [list, list, held_put_self, hp]
        exact (List.Sublist.refl a).append (List.sublist_cons_self e c)
      · rw [list, list, held_put_of_ne hl]
    exact List.Sublist.trans (h.kept l) hsub

theorem carries_lay {α : Type} {f : Entry → Action Draft α} (hs : s.Numbered) (id : EntryId)
    (k : Nat) (hf : ∀ e, Places (f e) e) : Carries [] (fun k => k) s (s.lay id k f) := by
  rw [lay]
  rcases hr : (s.held none).remove id with _ | ⟨e, rest⟩
  · exact carries_refl hs
  obtain ⟨-, a, c, hp, rfl⟩ := Block.remove_eq_some hr
  obtain ⟨hs', hnew, hlt⟩ := hs.takeOut hp
  set s' := s.put none ⟨a ++ c, s.nextId⟩ with hs₁
  have htaken : Carries [] (fun k => k) s s' :=
    ⟨hs', fun l => by rw [hs₁, list_put_none]; exact Block.keeps_refl _ _⟩
  rcases hf e (s'.draft (some k)) with hstate | ⟨a', c', hac, hstate⟩
  · refine htaken.trans (carries_on hs' ?_)
    rw [hstate]
    exact grows_refl (hs'.draft _)
  · show Carries _ _ s (s'.put (some k) _)
    rw [hstate]
    exact htaken.put_insert hnew hlt hac

theorem carries_lift (hs : s.Numbered) (k : Nat) (target : EntryId) :
    Carries (if (s.list k).has target then [target] else []) (fun k => k) s (s.lift k target) := by
  rw [lift]
  rcases hr : (s.list k).remove target with _ | ⟨e, b⟩
  · have hr' : (s.draft (some k)).block.remove target = none := hr
    have hkept : Draft.remove target (s.draft (some k)) = ⟨.ok none, s.draft (some k), []⟩ := by
      rw [Draft.remove, Action.bind_quiet (get_apply _)]
      simp only [hr']
      rfl
    rw [hkept]
    exact ⟨hs, fun l => Block.keeps_refl _ _⟩
  · obtain ⟨rfl, a, c, hp, rfl⟩ := Block.remove_eq_some hr
    obtain ⟨hs', hnew, hlt⟩ := hs.takeOut (p := some k) hp
    have hhas : (s.list k).has e.id := by
      rw [hp]
      simp [Block.has]
    rw [Draft.remove_apply (d := s.draft (some k)) hr, if_pos hhas]
    have htaken : Carries [e.id] (fun k => k) s (s.put (some k) ⟨a ++ c, s.nextId⟩) := by
      refine ⟨hs', fun l => ?_⟩
      by_cases hl : l = k
      · subst hl
        rw [hp, list, held_put_self]
        exact Block.keeps_takeOut a c e
      · rw [list, list, held_put_of_ne (by simpa using hl)]
        exact Block.keeps_refl _ _
    exact htaken.put_insert hnew hlt (List.append_nil _).symm

theorem Numbered.append (hs : s.Numbered) {j k : Nat} (hkj : some k ≠ some j) :
    Draft.Numbered ⟨s.list k ++ s.list j, s.nextId⟩ := by
  constructor
  · rw [List.map_append, List.nodup_append]
    refine ⟨hs.nodup _, hs.nodup _, ?_⟩
    intro i hi i' hi'
    obtain ⟨e, he, rfl⟩ := List.mem_map.1 hi
    obtain ⟨e', he', rfl⟩ := List.mem_map.1 hi'
    exact hs.apart (some k) (some j) hkj e he e' he'
  · intro e he
    rcases List.mem_append.1 he with he | he
    · exact hs.old _ e he
    · exact hs.old _ e he

theorem carries_append (hs : s.Numbered) {j k : Nat} (hjk : j ≠ k) :
    Carries [] (fun l => if l = j then k else l) s
      ((s.put (some j) ⟨[], s.nextId⟩).on (some k) (Draft.append (s.list j))) := by
  have hkj : some k ≠ some j := fun h => hjk (Option.some.inj h).symm
  -- the second list is emptied first, so that no entry is in two places at once
  obtain ⟨s', hs'⟩ : ∃ s', s' = s.put (some j) ⟨[], s.nextId⟩ := ⟨_, rfl⟩
  have hempty : s'.Numbered := by
    rw [hs']
    refine hs.put ⟨List.nodup_nil, ?_⟩ (Nat.le_refl _) ?_
    · exact fun _ he => absurd he List.not_mem_nil
    · exact fun _ he => absurd he List.not_mem_nil
  have hnext : s'.nextId = s.nextId := by rw [hs']; rfl
  have hheld : ∀ q, q ≠ some j → s'.held q = s.held q := by
    intro q hq
    rw [hs', held_put_of_ne hq]
  have hblock : ((Draft.append (s.list j)) (s'.draft (some k))).state
      = ⟨s.list k ++ s.list j, s.nextId⟩ := by
    show Draft.mk (s'.held (some k) ++ s.list j) s'.nextId = _
    rw [hheld _ hkj, hnext]
    rfl
  rw [← hs', on, hblock]
  constructor
  · refine hempty.put (hs.append hkj) (Nat.le_of_eq hnext) ?_
    intro e he q hq e' he'
    by_cases hqj : q = some j
    · rw [hqj, hs', held_put_self] at he'
      exact absurd he' List.not_mem_nil
    · rw [hheld q hqj] at he'
      rcases List.mem_append.1 he with he | he
      · exact hs.apart q (some k) hq e' he' e he
      · exact hs.apart q (some j) hqj e' he' e he
  · intro l
    by_cases hl : l = j
    · rw [if_pos hl, hl, list, list, held_put_self]
      exact Block.keeps_of_sublist _ (List.sublist_append_right _ _)
    · rw [if_neg hl]
      by_cases hlk : l = k
      · rw [hlk, list, list, held_put_self]
        exact Block.keeps_of_sublist _ (List.sublist_append_left _ _)
      · rw [list, list, held_put_of_ne (by simpa using hlk), hheld _ (by simpa using hl)]
        exact Block.keeps_refl _ _

/-! ## Operations -/

theorem carries_make (hs : s.Numbered) (content : Content) (isApp : Bool) (note : Option Note) :
    Carries [] (fun l => l) s (s.on none do Draft.push (← Draft.entry content isApp note)) := by
  refine carries_on hs ?_
  exact grows_insert (hs.draft none) (List.append_nil _).symm (Nat.le_refl _) rfl

theorem carries_revise (hs : s.Numbered) (id : EntryId) (isApp : Bool) (note : Option Note) :
    Carries [] (fun l => l) s ((Operation.revise id isApp note).perform s) := by
  set f : Entry → Entry := fun e => if e.id = id then { e with isApp, note } else e with hf
  have hid : ∀ e, (f e).id = e.id := by
    intro e
    rw [hf]
    dsimp only
    split <;> rfl
  show Carries _ _ s (s.put none ⟨(s.held none).map f, s.nextId⟩)
  refine ⟨hs.put ⟨?_, ?_⟩ (Nat.le_refl _) ?_, fun l => ?_⟩
  · have hids : (Entry.id ∘ f) = Entry.id := funext hid
    rw [List.map_map, hids]
    exact hs.nodup none
  · intro e he
    obtain ⟨x, hx, rfl⟩ := List.mem_map.1 he
    rw [hid]
    exact hs.old none x hx
  · intro e he q hq e' he'
    obtain ⟨x, hx, rfl⟩ := List.mem_map.1 he
    rw [hid]
    exact hs.apart q none hq e' he' x hx
  · rw [list_put_none]
    exact Block.keeps_refl _ _

theorem carries_build (hs : s.Numbered) (k : Nat) (is : List X64.Instruction) :
    Carries ((s.list k).map (·.id)) (fun l => l) s
      (s.on (some k) do Draft.setBlock (← Draft.appAll is)) := by
  refine carries_on hs ?_
  rw [Action.bind_quiet (appAll_apply is _), ← (List.length_map _ : (Block.program is).length = _)]
  exact grows_renew (s.draft (some k)) (Block.program is)

theorem carries_clone (hs : s.Numbered) (k : Nat) (b : Block) :
    Carries ((s.list k).map (·.id)) (fun l => l) s
      (s.on (some k) do Draft.setBlock (← Draft.duplicateAll b)) := by
  refine carries_on hs ?_
  rw [Action.bind_quiet (duplicateAll_apply b _)]
  exact grows_renew (s.draft (some k)) b

theorem carries_perform (hs : s.Numbered) (op : Operation) :
    Carries (op.gone s) (fun l => op.home l) s (op.perform s) := by
  cases op with
  | make content isApp note => exact carries_make hs content isApp note
  | duplicate e => exact carries_make hs e.content e.isApp e.note
  | revise id isApp note => exact carries_revise hs id isApp note
  | build k is => exact carries_build hs k is
  | push k id => exact carries_lay hs id k places_push
  | insert k target id before =>
    refine carries_lay hs id k fun e => ?_
    cases before
    · exact places_edit Block.insertAfter_eq_some
    · exact places_edit Block.insertBefore_eq_some
  | insertCall k target c => exact carries_on hs (adds_insertCall target c _ (hs.draft _))
  | insertMarker k m target kind before =>
    exact carries_on hs (m.adds_insert target kind before _ (hs.draft _))
  | remove k target => exact carries_lift hs k target
  | retain k keep => exact carries_on hs (grows_retain (hs.draft _) keep)
  | append k j =>
    rw [Operation.perform]
    split
    · next hjk =>
      refine ⟨hs, fun l => ?_⟩
      have hl : (Operation.append k j).home l = l := by
        rw [Operation.home, hjk]
        split
        · next h => exact h.symm
        · rfl
      rw [hl]
      exact Block.keeps_refl _ _
    · next hjk => exact carries_append hs hjk
  | clone j k => exact carries_clone hs k (s.list j)
  | double k m => exact carries_on hs (m.double_grows (hs.draft _))
  | install k l slot arch => exact carries_on hs (l.adds_install slot arch _ (hs.draft _))
  | processBlock k c => exact carries_on hs (c.processBlock_grows (hs.draft _))
  | process k cs t forTrace rebuilding =>
    exact carries_on hs (Checker.process_grows cs t forTrace rebuilding (hs.draft _))

theorem carries_run (hs : s.Numbered) (ops : List Operation) :
    Carries (s.gone ops) (fun l => Desk.home l ops) s (s.run ops) := by
  induction ops generalizing s with
  | nil => exact carries_refl hs
  | cons op rest ih =>
    have hop := carries_perform hs op
    exact hop.trans (ih hop.numbered)

theorem position?_getElem (hs : s.Numbered) (k : Nat) {i : Nat} (hi : i < (s.list k).length) :
    (s.list k).position? (s.list k)[i].id = some i := by
  have hne := List.pairwise_iff_getElem.1 (List.pairwise_map.1 (hs.nodup (some k)))
  rw [Block.position?, List.findIdx?_eq_some_iff_getElem]
  refine ⟨hi, beq_self_eq_true _, fun j hj => ?_⟩
  rw [beq_iff_eq]
  exact hne j i (Nat.lt_trans hj hi) hi hj

/-- However lists are worked on, no identity is twice in a list or in two lists, an identity leads
to the place of its entry, and from then on every entry that is not taken out stays the same, in the
same order, and is the only one of its identity. -/
theorem identities_kept (before after : List Operation) :
    let s := new.run before
    let s' := s.run after
    (∀ k, ((s.list k).map (·.id)).Nodup)
      ∧ (∀ j k, j ≠ k → ∀ e ∈ s.list j, ∀ e' ∈ s.list k, e.id ≠ e'.id)
      ∧ (∀ k i, (hi : i < (s.list k).length) → (s.list k).position? (s.list k)[i].id = some i)
      ∧ (∀ k, (s.list k).Keeps (s.gone after) (s'.list (home k after)))
      ∧ ∀ k, ∀ e ∈ s.list k, e.id ∉ s.gone after →
        ∀ j, ∀ e' ∈ s'.list j, e'.id = e.id → j = home k after ∧ e' = e := by
  intro s s'
  have hs : s.Numbered := (carries_run numbered_new before).numbered
  have hrun := carries_run hs after
  refine ⟨fun k => hs.nodup (some k), ?_, fun k i hi => position?_getElem hs k hi, hrun.kept, ?_⟩
  · intro j k hjk
    exact hs.apart (some j) (some k) fun h => hjk (Option.some.inj h)
  · intro k e he hgone j e' he' hid
    have hmem : e ∈ s'.list (home k after) :=
      (hrun.kept k).subset (List.mem_filter.2 ⟨he, by simpa using hgone⟩)
    have hj : j = home k after := by
      by_contra hne
      exact hrun.numbered.apart (some j) (some (home k after)) (fun h => hne (Option.some.inj h))
        e' he' e hmem hid
    subst hj
    exact ⟨rfl, List.inj_on_of_nodup_map (hrun.numbered.nodup _) he' hmem hid⟩

end Desk

end Rerun
