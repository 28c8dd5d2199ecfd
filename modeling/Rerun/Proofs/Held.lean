import Mathlib.Data.List.Nodup
import Rerun.Proofs.Checked
import Rerun.Proofs.Registered

/-!
# What threads hold

A thread holds a pair in each slot of a list and nothing else (`Thread.Holds`). A slot may be added
when the thread starts and emptied when it ends; a run whose calls are those of the checkers with
these slots keeps the pairs, however it ends (`careful_run`). Edits of a block have nothing to do
with any of this (`Draft.Quiet`).
-/

namespace Rerun

open Rerun.Action

/-- A thread does not hold what it should. -/
def Fault.Unheld : Fault → Prop
  | initializedTwice | nothingToRelease | noSnapshots _ => True
  | _ => False

namespace Action

variable {σ α β : Type} {I : σ → Prop} {x : Action σ α} {f : α → Action σ β}

/-- However `x` ends, `I` is kept, and all threads hold what they should. -/
def Safe (I : σ → Prop) (x : Action σ α) : Prop :=
  ∀ s, I s → I (x s).state ∧ ∀ e, (x s).result = .error e → ¬e.Unheld

theorem Safe.bind (hx : x.Safe I) (hf : ∀ a, (f a).Safe I) : (x >>= f).Safe I := by
  intro s hs
  obtain ⟨hstate, hfault⟩ := hx s hs
  rcases hr : (x s).result with e | a
  · have hends : (x >>= f).Ends s (.error e) (x s).state := Ends.bind_error ⟨hr, rfl⟩
    rw [hends.1, hends.2]
    exact ⟨hstate, fun e' he' => Except.error.inj he' ▸ hfault e hr⟩
  · have hends : (x >>= f).Ends s (f a (x s).state).result (f a (x s).state).state :=
      Ends.bind ⟨hr, rfl⟩ ⟨rfl, rfl⟩
    rw [hends.1, hends.2]
    exact hf a _ hstate

theorem safe_pure (a : α) : (pure a : Action σ α).Safe I := fun _ hs => ⟨hs, nofun⟩

theorem safe_get : (get : Action σ σ).Safe I := fun _ hs => ⟨hs, nofun⟩

theorem safe_say (level : Level) (part : Part) (text : String) :
    (say level part text : Action σ Unit).Safe I := fun _ hs => ⟨hs, nofun⟩

theorem safe_record (r : Record) : (record r : Action σ Unit).Safe I := fun _ hs => ⟨hs, nofun⟩

theorem safe_fail {e : Fault} (he : ¬e.Unheld) : (fail e : Action σ α).Safe I :=
  fun _ hs => ⟨hs, fun _ h => Except.error.inj h ▸ he⟩

theorem safe_modify {g : σ → σ} (hg : ∀ s, I s → I (g s)) : (modify g : Action σ PUnit).Safe I :=
  fun s hs => ⟨hg s hs, nofun⟩

end Action

/-! ## Edits -/

namespace Draft

/-- An edit has nothing to do with threads. -/
def Quiet {α : Type} (x : Action Draft α) : Prop := x.Safe fun _ => True

theorem quiet_modify (g : Draft → Draft) : Quiet (modify g) := safe_modify fun _ _ => trivial

theorem quiet_entry (content : Content) (isApp : Bool) (note : Option Note) :
    Quiet (entry content isApp note) := fun _ _ => ⟨trivial, nofun⟩

theorem quiet_duplicateAll (b : Block) : Quiet (duplicateAll b) := by
  intro d _
  rw [duplicateAll_apply]
  exact ⟨trivial, nofun⟩

theorem quiet_append (b : Block) : Quiet (append b) := quiet_modify _

theorem quiet_edit (id : EntryId) (f : Block → Option Block) : Quiet (edit id f) := by
  refine safe_get.bind fun d => ?_
  cases f d.block with
  | none => exact safe_pure _
  | some b => exact (quiet_modify _).bind fun _ => safe_pure _

theorem quiet_remove (target : EntryId) : Quiet (remove target) := by
  refine safe_get.bind fun d => ?_
  cases d.block.remove target with
  | none => exact safe_pure _
  | some p => exact (quiet_modify _).bind fun _ => safe_pure _

theorem quiet_insertCall (target : EntryId) (c : Call) : Quiet (insertCall target c) :=
  (quiet_entry _ _ _).bind fun _ => quiet_edit _ _

theorem quiet_insertCalls (cs : List (EntryId × Call)) : Quiet (insertCalls cs) := by
  induction cs with
  | nil => exact safe_pure _
  | cons c rest ih =>
    refine (quiet_insertCall _ _).bind fun id => ?_
    cases id with
    | none => exact safe_pure _
    | some id => exact ih

end Draft

open Draft

namespace Markers

theorem quiet_marker (m : Markers) (kind : MarkerKind) : Quiet (m.marker kind) := by
  rw [marker]
  refine Safe.bind ?_ fun note => quiet_entry _ _ _
  rw [label]
  split
  · exact safe_pure _
  · exact safe_fail not_false

theorem quiet_insert (m : Markers) (target : EntryId) (kind : MarkerKind) (before : Bool) :
    Quiet (m.insert target kind before) := by
  refine (m.quiet_marker kind).bind fun e => ?_
  cases before
  · exact quiet_edit _ _
  · exact quiet_edit _ _

theorem quiet_double (m : Markers) : Quiet m.double := by
  refine safe_get.bind fun d => ?_
  dsimp only
  -- whatever is not found, nothing is done
  split
  case h_2 => exact safe_pure _
  split
  case h_2 => exact safe_pure _
  refine (quiet_duplicateAll _).bind fun copy => (m.quiet_insert _ _ _).bind fun first => ?_
  split
  case h_2 => exact safe_pure _
  split
  case h_2 => exact safe_pure _
  refine (m.quiet_marker _).bind fun plain => ?_
  split
  case h_2 => exact safe_pure _
  split
  case h_2 => exact safe_pure _
  refine (m.quiet_marker _).bind fun last => ?_
  split
  case h_2 => exact safe_pure _
  split
  · refine (quiet_remove _).bind fun _ => (quiet_append _).bind fun _ => ?_
    exact safe_get.bind fun _ => (safe_say _ _ _).bind fun _ => safe_pure _
  · refine (quiet_append _).bind fun _ => ?_
    exact safe_get.bind fun _ => (safe_say _ _ _).bind fun _ => safe_pure _

end Markers

theorem Layout.quiet_install (l : Layout) (k : Nat) (arch : Arch) : Quiet (l.install k arch) := by
  rw [Layout.install_eq]
  refine safe_get.bind fun d => ?_
  split
  · exact quiet_insertCalls _
  · exact safe_pure _

theorem Checker.quiet_processBlock (c : Checker) : Quiet c.processBlock := by
  refine safe_get.bind fun d => ?_
  split
  · exact (safe_say _ _ _).bind fun _ => safe_pure _
  refine c.markers.quiet_double.bind fun layout => ?_
  split
  case h_2 => exact safe_pure _
  refine (Layout.quiet_install _ _ _).bind fun installed => ?_
  split
  · exact safe_get.bind fun _ => (safe_say _ _ _).bind fun _ => safe_pure _
  · exact (safe_say _ _ _).bind fun _ => safe_pure _

/-! ## The storage of a thread -/

namespace Thread

variable {slots : List Nat} {t t' : Thread} {k : Nat} {v : Option Stored}

/-- A slot that a thread can have. -/
def Storable (k : Nat) : Prop := k + 1 < Word.count ∧ k + 1 ≤ Storage.capacity

/-- Any content can be put into a slot, or none can, and then nothing changes. -/
theorem store_cases (k : Nat) :
    (Storable k ∧ ∀ v t, (store k v).Ends t (.ok (t.slot k)) (t.setSlot k v))
      ∨ ¬Storable k ∧ ∃ e : Fault, ¬e.Unheld ∧ ∀ v t, (store k v).Ends t (.error e) t := by
  unfold store Storable
  dsimp only
  by_cases hword : Word.count ≤ k + 1
  · refine .inr ⟨fun h => Nat.not_le_of_lt h.1 hword, .addOverflow, not_false, fun v t => ?_⟩
    rw [if_pos hword]
    exact (ends_fail _ _).bind_error
  by_cases hsize : Storage.capacity < k + 1
  · refine .inr ⟨fun h => Nat.not_le_of_lt hsize h.2, .tableTooLarge, not_false, fun v t => ?_⟩
    rw [if_neg hword, if_pos hsize]
    exact (ends_fail _ _).bind_error
  · refine .inl ⟨⟨Nat.lt_of_not_le hword, Nat.le_of_not_lt hsize⟩, fun v t => ?_⟩
    rw [if_neg hword, if_neg hsize]
    exact ends_modifyGet rfl

/-- A thread holds a pair in each slot of a list, and nothing else. -/
structure Holds (slots : List Nat) (t : Thread) : Prop where
  storable : ∀ k ∈ slots, Storable k
  pair : ∀ k ∈ slots, ∃ pair, t.snapshots? k = some pair
  empty : ∀ k, k ∉ slots → t.slot k = none

theorem holds_new (id : Nat) (arch : Arch) : Holds [] (new id arch) where
  storable := nofun
  pair := nofun
  empty _ _ := rfl

theorem Holds.withSnapshots (h : Holds slots t) (hk : k ∈ slots) (pair : Snapshots) :
    Holds slots (t.withSnapshots k pair) where
  storable := h.storable
  pair j hj := by
    by_cases heq : j = k
    · subst heq
      exact ⟨pair, snapshots?_withSnapshots t j pair⟩
    · rw [snapshots?_congr (slot_withSnapshots_of_ne heq t pair)]
      exact h.pair j hj
  empty j hj := by
    have hne : j ≠ k := fun heq => hj (heq.symm ▸ hk)
    rw [slot_withSnapshots_of_ne hne t pair]
    exact h.empty j hj

theorem Holds.setRegisters (h : Holds slots t) (file : RegisterFile) :
    Holds slots (t.setRegisters file) := ⟨h.storable, h.pair, h.empty⟩

/-- A pair for one more slot. -/
theorem Holds.cons (h : Holds slots t) (hk : Storable k) (pair : Snapshots) :
    Holds (k :: slots) (t.withSnapshots k pair) where
  storable := List.forall_mem_cons.2 ⟨hk, h.storable⟩
  pair j hj := by
    by_cases heq : j = k
    · subst heq
      exact ⟨pair, snapshots?_withSnapshots t j pair⟩
    · rw [snapshots?_congr (slot_withSnapshots_of_ne heq t pair)]
      exact h.pair j ((List.mem_cons.1 hj).resolve_left heq)
  empty j hj := by
    obtain ⟨hne, hj⟩ := not_or.1 (mt List.mem_cons.2 hj)
    rw [slot_withSnapshots_of_ne hne t pair]
    exact h.empty j hj

/-- A slot is emptied. -/
theorem Holds.of_cons (h : Holds (k :: slots) t) (hk : k ∉ slots) :
    Holds slots (t.setSlot k none) where
  storable j hj := h.storable j (List.mem_cons_of_mem k hj)
  pair j hj := by
    have hne : j ≠ k := fun heq => hk (heq ▸ hj)
    have hkept : (t.setSlot k none).slot j = t.slot j := by rw [slot_setSlot, if_neg hne]
    rw [snapshots?_congr hkept]
    exact h.pair j (List.mem_cons_of_mem k hj)
  empty j hj := by
    rw [slot_setSlot]
    split
    · rfl
    · next hne => exact h.empty j (by simp [hne, hj])

theorem Holds.congr (h : Holds slots t) (heq : ∀ k, t'.slot k = t.slot k) : Holds slots t' where
  storable := h.storable
  pair k hk := by
    rw [snapshots?_congr (heq k)]
    exact h.pair k hk
  empty k hk := (heq k).trans (h.empty k hk)

theorem Holds.of_mem_iff {slots' : List Nat} (h : Holds slots t)
    (heq : ∀ k, k ∈ slots' ↔ k ∈ slots) : Holds slots' t where
  storable k hk := h.storable k ((heq k).1 hk)
  pair k hk := h.pair k ((heq k).1 hk)
  empty k hk := h.empty k (mt (heq k).2 hk)

/-- A thread that starts is given a pair for a new slot, if it can have the slot. -/
theorem allocate_cases (h : Holds slots t) (hk : k ∉ slots) :
    (∃ t', (allocate k).Ends t (.ok ()) t' ∧ Holds (k :: slots) t')
      ∨ ¬Storable k ∧ ∃ e t', (allocate k).Ends t (.error e) t' ∧ ¬e.Unheld := by
  rcases store_cases k with ⟨hstorable, hstore⟩ | ⟨hnot, e, he, hstore⟩
  · refine .inl ⟨_, (ends_get t).bind ((hstore _ t).bind ?_), h.cons hstorable .zero⟩
    rw [h.empty k hk, if_neg (by decide)]
    exact ends_say _ _ _ _
  · exact .inr ⟨hnot, e, t, (ends_get t).bind (hstore _ t).bind_error, he⟩

/-- A thread that ends gives its pair back. -/
theorem release_ends (h : Holds (k :: slots) t) (hk : k ∉ slots) :
    (release k).Ends t (.ok ()) (t.setSlot k none) ∧ Holds slots (t.setSlot k none) := by
  obtain ⟨pair, hpair⟩ := h.pair k List.mem_cons_self
  rcases store_cases k with ⟨-, hstore⟩ | ⟨hnot, -⟩
  · refine ⟨(ends_get t).bind ((hstore none t).bind ?_), h.of_cons hk⟩
    rw [hpair, if_neg (by simp)]
    exact ends_say _ _ _ _
  · exact absurd (h.storable k List.mem_cons_self) hnot

/-! ## Runs -/

/-- What a thread does keeps its pairs. -/
def Careful {α : Type} (slots : List Nat) (x : Action Thread α) : Prop := x.Safe (Holds slots)

theorem careful_save (hk : k ∈ slots) (forCompare : Bool) : Careful slots (save k forCompare) := by
  intro t ht
  obtain ⟨pair, hpair⟩ := ht.pair k hk
  obtain ⟨hr, ht'⟩ := save_ends hpair forCompare
  rw [hr, ht']
  exact ⟨ht.withSnapshots hk _, nofun⟩

theorem careful_restore (hk : k ∈ slots) : Careful slots (restore k) := by
  intro t ht
  obtain ⟨pair, hpair⟩ := ht.pair k hk
  obtain ⟨hr, ht'⟩ := restore_ends hpair
  rw [hr, ht']
  exact ⟨ht.setRegisters _, nofun⟩

theorem careful_compare (hk : k ∈ slots) (arch : Arch) : Careful slots (compare k arch) := by
  intro t ht
  obtain ⟨pair, hpair⟩ := ht.pair k hk
  by_cases harch : t.arch = arch
  · obtain ⟨hr, ht'⟩ := compare_ends harch hpair
    rw [hr, ht']
    refine ⟨ht, fun e he => ?_⟩
    cases hm : arch.compare pair.forCompare t.registers with
    | none =>
      rw [hm] at he
      cases he
    | some m =>
      rw [hm] at he
      cases he
      exact not_false
  · have hends : (compare k arch).Ends t (.error (.wrongArch t.id t.arch arch)) t := by
      refine (ends_get t).bind ?_
      rw [if_pos harch]
      exact (ends_fail _ _).bind_error
    rw [hends.1, hends.2]
    exact ⟨ht, fun e he => Except.error.inj he ▸ not_false⟩

theorem careful_step (i : X64.Instruction) : Careful slots (step i) := by
  intro t ht
  rcases hs : i.step.run t.registers with ⟨s, file⟩ | ⟨e, file⟩
  · obtain ⟨hr, ht'⟩ := step_ends_ok hs
    rw [hr, ht']
    exact ⟨ht.setRegisters file, fun _ he => by cases he⟩
  · have hends : (step i).Ends t (.ok (.error e)) (t.setRegisters file) := by
      constructor <;> simp only [step, modifyGet, MonadStateOf.modifyGet, Action.modifyGet, hs]
    rw [hends.1, hends.2]
    exact ⟨ht.setRegisters file, fun _ he => by cases he⟩

end Thread

/-- A call of one of the checkers of a list. -/
def Call.OfCheckers (cs : List Checker) (call : Call) : Prop :=
  ∃ c ∈ cs, (∃ forCompare, call = .save c.slot forCompare) ∨ call = .restore c.slot
    ∨ call = .compare c.slot c.arch

/-- The calls in a block are those of the checkers of a list. -/
def Block.CallsCheckers (cs : List Checker) (b : Block) : Prop :=
  ∀ e ∈ b, ∀ call, e.content = .call call → call.OfCheckers cs

namespace Thread

variable {cs : List Checker} {b : Block}

theorem careful_invoke {call : Call} (hcall : call.OfCheckers cs) :
    Careful (cs.map (·.slot)) call.invoke := by
  obtain ⟨c, hc, ⟨forCompare, rfl⟩ | rfl | rfl⟩ := hcall
  · rw [save_invoke]
    exact careful_save (List.mem_map_of_mem hc) forCompare
  · exact careful_restore (List.mem_map_of_mem hc)
  · exact careful_compare (List.mem_map_of_mem hc) c.arch

/-- A run keeps the pairs, and its calls find them. -/
theorem careful_run (hb : b.CallsCheckers cs) : Careful (cs.map (·.slot)) (run b) := by
  induction b with
  | nil => exact safe_pure _
  | cons e rest ih =>
    have hrest : Block.CallsCheckers cs rest := fun x hx => hb x (List.mem_cons_of_mem _ hx)
    cases hc : e.content with
    | label =>
      rw [run_label hc]
      exact ih hrest
    | call call =>
      rw [run_call hc]
      exact (careful_invoke (hb e List.mem_cons_self call hc)).bind fun _ => ih hrest
    | machine i =>
      rw [run_machine hc]
      refine (careful_step i).bind fun o => ?_
      rcases o with x | s
      · exact safe_pure _
      · cases s with
        | leave x => exact safe_pure _
        | proceed => exact ih hrest

theorem careful_execute (hb : b.CallsCheckers cs) : Careful (cs.map (·.slot)) (execute b) := by
  refine safe_get.bind fun t => ?_
  split
  · exact careful_run hb
  · exact safe_pure _

end Thread

end Rerun
