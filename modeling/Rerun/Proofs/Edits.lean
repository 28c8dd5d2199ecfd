import Rerun.Markers
import Rerun.Proofs.Actions

/-!
# Edits by identity

If the entries of a block have identities of their own, an edit addressed to one of them happens
exactly where that entry stands. A draft is `Numbered` if its entries have identities of their own
and all of them have been given out already; then every entry made from now on differs from all of
them. Copies take the next identities in a row (`Block.renumber`).
-/

namespace Rerun

namespace Block

variable {a b : Block} {x : Entry}

/-! ## Finding and editing -/

theorem insertBefore_append (ha : ∀ y ∈ a, y.id ≠ x.id) (e : Entry) (b : Block) :
    insertBefore x.id e (a ++ x :: b) = some (a ++ e :: x :: b) := by
  induction a with
  | nil => simp [insertBefore]
  | cons y rest ih =>
    have hrest := ih fun z hz => ha z (List.mem_cons_of_mem _ hz)
    simp only [List.cons_append, insertBefore, if_neg (ha y List.mem_cons_self), hrest,
      Option.map_some]

theorem insertAfter_append (ha : ∀ y ∈ a, y.id ≠ x.id) (e : Entry) (b : Block) :
    insertAfter x.id e (a ++ x :: b) = some (a ++ x :: e :: b) := by
  induction a with
  | nil => simp [insertAfter]
  | cons y rest ih =>
    have hrest := ih fun z hz => ha z (List.mem_cons_of_mem _ hz)
    simp only [List.cons_append, insertAfter, if_neg (ha y List.mem_cons_self), hrest,
      Option.map_some]

theorem remove_append (ha : ∀ y ∈ a, y.id ≠ x.id) (b : Block) :
    remove x.id (a ++ x :: b) = some (x, a ++ b) := by
  induction a with
  | nil => simp [remove]
  | cons y rest ih =>
    have hrest := ih fun z hz => ha z (List.mem_cons_of_mem _ hz)
    simp only [List.cons_append, remove, if_neg (ha y List.mem_cons_self), hrest, Option.map_some]

theorem mem_app {e : Entry} : e ∈ b.app ↔ e ∈ b ∧ e.isApp := List.mem_filter

theorem app_append (a b : Block) : app (a ++ b) = app a ++ app b := List.filter_append _ _

@[simp] theorem app_app (b : Block) : app (app b) = app b := by simp [app]

theorem app_cons_of_isApp (h : x.isApp) (b : Block) : app (x :: b) = x :: app b :=
  List.filter_cons_of_pos h

theorem lastApp?_eq_getLast? (b : Block) : b.lastApp? = b.app.getLast? :=
  List.getLast?_filter.symm

/-- Behind the last entry of the program there are only entries of tools. -/
theorem lastApp?_eq_some_iff :
    b.lastApp? = some x ↔ x.isApp ∧ ∃ a m, b = a ++ x :: m ∧ app m = [] := by
  rw [lastApp?, List.find?_eq_some_iff_append]
  refine and_congr_right fun _ => ⟨?_, ?_⟩
  · rintro ⟨m, a, hb, hm⟩
    refine ⟨a.reverse, m.reverse, ?_, ?_⟩
    · rw [← List.reverse_reverse b, hb]
      simp
    · simpa [app] using hm
  · rintro ⟨a, m, rfl, hm⟩
    refine ⟨m.reverse, a.reverse, by simp, ?_⟩
    simpa [app] using hm

theorem app_ne_nil_of_lastApp? (h : b.lastApp? = some x) : b.app ≠ [] := by
  rw [lastApp?_eq_getLast?] at h
  rintro hnil
  rw [hnil] at h
  cases h

theorem exists_lastApp? (happ : b.app ≠ []) : ∃ e, b.lastApp? = some e := by
  rw [← Option.isSome_iff_exists, lastApp?_eq_getLast?]
  simpa using happ

theorem exists_head? (happ : b.app ≠ []) : ∃ e, b.head? = some e := by
  rw [← Option.isSome_iff_exists, List.isSome_head?]
  rintro rfl
  exact happ rfl

/-! ## Copies -/

/-- The entries of a block under the identities from `n` on. -/
def renumber (n : EntryId) : Block → Block
  | [] => []
  | e :: rest => { e with id := n } :: renumber (n + 1) rest

theorem renumber_append (n : EntryId) (a b : Block) :
    renumber n (a ++ b) = renumber n a ++ renumber (n + a.length) b := by
  induction a generalizing n with
  | nil => rfl
  | cons e rest ih =>
    simp only [List.cons_append, renumber, ih, List.length_cons]
    rw [Nat.add_assoc, Nat.add_comm 1]

/-- Copies are what the entries are, up to the identity. -/
theorem map_renumber {β : Type} {f : Entry → β} (hf : ∀ e n, f { e with id := n } = f e)
    (n : EntryId) (b : Block) : (renumber n b).map f = b.map f := by
  induction b generalizing n with
  | nil => rfl
  | cons e rest ih => simp only [renumber, List.map_cons, hf, ih]

/-- A copy is an entry of the block under another identity. -/
theorem exists_of_mem_renumber {n : EntryId} {e : Entry} (he : e ∈ renumber n b) :
    ∃ x ∈ b, ∃ i, e = { x with id := i } := by
  induction b generalizing n with
  | nil => cases he
  | cons y rest ih =>
    rcases List.mem_cons.1 he with rfl | he
    · exact ⟨y, List.mem_cons_self, n, rfl⟩
    · obtain ⟨x, hx, hcopy⟩ := ih he
      exact ⟨x, List.mem_cons_of_mem _ hx, hcopy⟩

/-- Whether a copy belongs to the program does not depend on its identity. -/
theorem map_app_renumber {β : Type} {f : Entry → β} (hf : ∀ e n, f { e with id := n } = f e)
    (n : EntryId) (b : Block) : (renumber n b).app.map f = b.app.map f := by
  induction b generalizing n with
  | nil => rfl
  | cons e rest ih =>
    rw [renumber, app, List.filter_cons, app, List.filter_cons]
    split
    · rw [List.map_cons, List.map_cons, hf]
      exact congrArg _ (ih (n + 1))
    · exact ih (n + 1)

theorem map_lastApp?_renumber {β : Type} {f : Entry → β}
    (hf : ∀ e n, f { e with id := n } = f e) (n : EntryId) (b : Block) :
    (renumber n b).lastApp?.map f = b.lastApp?.map f := by
  rw [lastApp?_eq_getLast?, lastApp?_eq_getLast?, ← List.getLast?_map, ← List.getLast?_map,
    map_app_renumber hf]

theorem length_app_renumber (n : EntryId) (b : Block) :
    (renumber n b).app.length = b.app.length := by
  have hmap := map_app_renumber (f := Entry.isApp) (fun _ _ => rfl) n b
  simpa using congrArg List.length hmap

theorem exists_of_mem_app_renumber {n : EntryId} {e : Entry} (he : e ∈ (renumber n b).app) :
    ∃ x ∈ b.app, ∃ i, e = { x with id := i } := by
  obtain ⟨hmem, happ⟩ := mem_app.1 he
  obtain ⟨x, hx, i, rfl⟩ := exists_of_mem_renumber hmem
  exact ⟨x, mem_app.2 ⟨hx, happ⟩, i, rfl⟩

theorem map_id_renumber (n : EntryId) (b : Block) :
    (renumber n b).map (·.id) = List.range' n b.length := by
  induction b generalizing n with
  | nil => rfl
  | cons e rest ih => simp only [renumber, List.map_cons, ih, List.length_cons, List.range'_succ]

theorem nodup_renumber (n : EntryId) (b : Block) : ((renumber n b).map (·.id)).Nodup := by
  rw [map_id_renumber]
  exact List.nodup_range'

theorem mem_renumber {n : EntryId} {y : Entry} (h : y ∈ renumber n b) :
    n ≤ y.id ∧ y.id < n + b.length := by
  have hy : y.id ∈ (renumber n b).map (·.id) := List.mem_map_of_mem h
  rw [map_id_renumber, List.mem_range'_1] at hy
  exact hy

end Block

namespace X64.Instruction

/-- Adds one to a general register. -/
def increment (n : BitVec 4) : Instruction :=
  ⟨.inc, .next, [.register (.gpr (.full n.toFin))], [], "inc"⟩

/-- Returns. -/
def ret : Instruction := ⟨.other "Ret", .ret, [], [.read], "ret"⟩

end X64.Instruction

namespace Draft

variable {d : Draft} {b : Block}

/-- The entries have identities of their own, all of them given out before. -/
structure Numbered (d : Draft) : Prop where
  nodup : (d.block.map (·.id)).Nodup
  old : ∀ e ∈ d.block, e.id < d.nextId

theorem numbered_iff :
    d.Numbered ↔ (d.block.map (·.id)).Nodup ∧ ∀ e ∈ d.block, e.id < d.nextId :=
  ⟨fun h => ⟨h.nodup, h.old⟩, fun h => ⟨h.1, h.2⟩⟩

instance : Decidable d.Numbered := decidable_of_iff _ numbered_iff.symm

theorem get_apply (d : Draft) : (get : Action Draft Draft) d = ⟨.ok d, d, []⟩ := rfl

theorem call_apply (c : Call) (d : Draft) :
    call c d = ⟨.ok ⟨d.nextId, .call c, false, none⟩, { d with nextId := d.nextId + 1 }, []⟩ := rfl

theorem duplicateAll_apply (b : Block) (d : Draft) :
    duplicateAll b d
      = ⟨.ok (b.renumber d.nextId), { d with nextId := d.nextId + b.length }, []⟩ := by
  induction b generalizing d with
  | nil => rfl
  | cons e rest ih =>
    have he : duplicate e d
        = ⟨.ok { e with id := d.nextId }, { d with nextId := d.nextId + 1 }, []⟩ := rfl
    rw [duplicateAll, Action.bind_quiet he, Action.bind_quiet (ih _), Block.renumber]
    simp only [Action.pure_apply, List.length_cons, Nat.add_assoc, Nat.add_comm 1]

theorem append_apply (c : Block) (d : Draft) :
    append c d = ⟨.ok (), { d with block := d.block ++ c }, []⟩ := rfl

theorem insertBefore_apply {target : EntryId} {e : Entry}
    (h : d.block.insertBefore target e = some b) :
    insertBefore target e d = ⟨.ok (some e.id), { d with block := b }, []⟩ := by
  rw [insertBefore, edit, Action.bind_quiet (get_apply d), h]
  rfl

theorem insertCall_apply {target : EntryId} {c : Call}
    (h : d.block.insertBefore target ⟨d.nextId, .call c, false, none⟩ = some b) :
    insertCall target c d = ⟨.ok (some d.nextId), ⟨b, d.nextId + 1⟩, []⟩ := by
  rw [insertCall, Action.bind_quiet (call_apply c d)]
  exact insertBefore_apply (d := ⟨d.block, d.nextId + 1⟩) h

theorem remove_apply {target : EntryId} {e : Entry} (h : d.block.remove target = some (e, b)) :
    remove target d = ⟨.ok (some e), { d with block := b }, []⟩ := by
  rw [remove, Action.bind_quiet (get_apply d), h]
  rfl

end Draft

namespace Markers

/-- The range of notes does not reach beyond the last word. -/
def Fits (m : Markers) : Prop := m.base.toNat + count ≤ Word.count

theorem offset_lt (kind : MarkerKind) : kind.offset < count := by cases kind <;> decide

theorem label_eq {m : Markers} (h : m.Fits) (kind : MarkerKind) :
    m.label kind = .ok (m.base + BitVec.ofNat 64 kind.offset) := by
  rw [label, if_pos]
  exact Nat.lt_of_lt_of_le (Nat.add_lt_add_left (offset_lt kind) _) h

/-- The marker of a kind under the identity `n`. -/
def entry (m : Markers) (kind : MarkerKind) (n : EntryId) : Entry :=
  ⟨n, .label, false, some (m.base + BitVec.ofNat 64 kind.offset)⟩

theorem marker_apply {m : Markers} (h : m.Fits) (kind : MarkerKind) (d : Draft) :
    m.marker kind d = ⟨.ok (m.entry kind d.nextId), { d with nextId := d.nextId + 1 }, []⟩ := by
  rw [marker, label_eq h]
  rfl

/-- A marker put in front of a block. -/
theorem insert_apply {m : Markers} (h : m.Fits) (kind : MarkerKind) {d : Draft} {x : Entry}
    (hx : d.block.head? = some x) :
    m.insert x.id kind true d
      = ⟨.ok (some d.nextId), ⟨m.entry kind d.nextId :: d.block, d.nextId + 1⟩, []⟩ := by
  rw [insert, Action.bind_quiet (marker_apply h kind d)]
  obtain ⟨rest, hb⟩ := List.head?_eq_some_iff.1 hx
  refine Draft.insertBefore_apply (d := ⟨d.block, d.nextId + 1⟩) ?_
  rw [hb]
  simp only [Block.insertBefore, ↓reduceIte]

end Markers

end Rerun
