import Rerun.Proofs.Clients
import Rerun.Proofs.Processed

/-!
# What edits keep

However a draft is edited, entries that come in have identities from its supply, and entries that
were there and are not taken out keep their order (`Draft.Grows`). Doubling takes out the terminator
and nothing else (`double_grows`), and so does all that a checker, or the checkers of a host, make
of a block (`processBlock_grows`, `process_grows`), also where a note beyond the last word makes
them stop half way.
-/

namespace Rerun

open Rerun.Action

namespace Block

variable {a b b' c : Block} {gone gone' : List EntryId} {target : EntryId} {e : Entry}

/-- The entries of `a` whose identities are not in `gone` are in `b` as well, in their order. -/
def Keeps (gone : List EntryId) (a b : Block) : Prop :=
  (a.filter fun e => e.id ∉ gone).Sublist b

theorem keeps_refl (gone : List EntryId) (a : Block) : Keeps gone a a := List.filter_sublist

theorem keeps_of_sublist (gone : List EntryId) (h : a.Sublist b) : Keeps gone a b :=
  List.filter_sublist.trans h

theorem keeps_takeOut (a c : Block) (e : Entry) : Keeps [e.id] (a ++ e :: c) (a ++ c) := by
  rw [Keeps, List.filter_append, List.filter_cons_of_neg (by simp), ← List.filter_append]
  exact List.filter_sublist

theorem Keeps.trans (h : Keeps gone a b) (h' : Keeps gone' b c) : Keeps (gone ++ gone') a c := by
  have hsub : ((a.filter fun e => e.id ∉ gone).filter fun e => e.id ∉ gone').Sublist c :=
    (h.filter _).trans h'
  rw [List.filter_filter] at hsub
  simpa only [Keeps, List.mem_append, not_or, Bool.decide_and, Bool.and_comm] using hsub

theorem insertBefore_eq_some (h : b.insertBefore target e = some b') :
    ∃ a c, b = a ++ c ∧ b' = a ++ e :: c := by
  induction b generalizing b' with
  | nil => cases h
  | cons x rest ih =>
    rw [insertBefore] at h
    split at h
    · exact ⟨[], x :: rest, rfl, (Option.some.inj h).symm⟩
    · obtain ⟨b₁, hb₁, rfl⟩ := Option.map_eq_some_iff.1 h
      obtain ⟨a, c, rfl, rfl⟩ := ih hb₁
      exact ⟨x :: a, c, rfl, rfl⟩

theorem insertAfter_eq_some (h : b.insertAfter target e = some b') :
    ∃ a c, b = a ++ c ∧ b' = a ++ e :: c := by
  induction b generalizing b' with
  | nil => cases h
  | cons x rest ih =>
    rw [insertAfter] at h
    split at h
    · exact ⟨[x], rest, rfl, (Option.some.inj h).symm⟩
    · obtain ⟨b₁, hb₁, rfl⟩ := Option.map_eq_some_iff.1 h
      obtain ⟨a, c, rfl, rfl⟩ := ih hb₁
      exact ⟨x :: a, c, rfl, rfl⟩

theorem remove_eq_some (h : b.remove target = some (e, b')) :
    e.id = target ∧ ∃ a c, b = a ++ e :: c ∧ b' = a ++ c := by
  induction b generalizing b' with
  | nil => cases h
  | cons x rest ih =>
    rw [remove] at h
    split at h
    · next hx =>
      cases h
      exact ⟨hx, [], rest, rfl, rfl⟩
    · obtain ⟨⟨y, b₁⟩, hb₁, heq⟩ := Option.map_eq_some_iff.1 h
      cases heq
      obtain ⟨he, a, c, rfl, rfl⟩ := ih hb₁
      exact ⟨he, x :: a, c, rfl, rfl⟩

end Block

/-- The instructions of a program as entries, before these have identities. -/
def Block.program (is : List X64.Instruction) : Block :=
  is.map fun i => ⟨0, .machine i, true, none⟩

namespace Draft

variable {d d' d'' : Draft} {gone : List EntryId} {a c : Block} {e : Entry} {n : EntryId}

/-- A numbered draft has become another one. Its entries came in with new identities, and those that
are not in `gone` are still there, in their order. -/
structure Grows (gone : List EntryId) (d d' : Draft) : Prop where
  numbered : d'.Numbered
  next : d.nextId ≤ d'.nextId
  fresh : ∀ e ∈ d'.block, e ∈ d.block ∨ d.nextId ≤ e.id
  kept : d.block.Keeps gone d'.block

theorem grows_refl (hd : d.Numbered) : Grows [] d d where
  numbered := hd
  next := Nat.le_refl _
  fresh _ he := .inl he
  kept := Block.keeps_refl _ _

theorem Grows.trans {gone' : List EntryId} (h : Grows gone d d') (h' : Grows gone' d' d'') :
    Grows (gone ++ gone') d d'' where
  numbered := h'.numbered
  next := Nat.le_trans h.next h'.next
  fresh e he := by
    rcases h'.fresh e he with he | hn
    · exact h.fresh e he
    · exact .inr (Nat.le_trans h.next hn)
  kept := h.kept.trans h'.kept

theorem Grows.then (h : Grows gone d d') (h' : Grows [] d' d'') : Grows gone d d'' := by
  simpa using h.trans h'

/-- Identities that are not given to any entry of the block do no harm. -/
theorem Numbered.mono (hd : d.Numbered) (h : d.nextId ≤ n) : Numbered ⟨d.block, n⟩ where
  nodup := hd.nodup
  old e he := Nat.lt_of_lt_of_le (hd.old e he) h

theorem grows_supply (hd : d.Numbered) (h : d.nextId ≤ n) : Grows [] d ⟨d.block, n⟩ where
  numbered := hd.mono h
  next := h
  fresh _ he := .inl he
  kept := Block.keeps_refl _ _

theorem grows_insert (hd : d.Numbered) (hb : d.block = a ++ c) (hn : d.nextId ≤ n) (he : e.id = n) :
    Grows [] d ⟨a ++ e :: c, n + 1⟩ where
  numbered := Numbered.insert (hb ▸ hd.mono hn) he
  next := Nat.le_succ_of_le hn
  fresh x hx := by
    rw [hb]
    simp only [List.mem_append, List.mem_cons] at hx ⊢
    rcases hx with hx | rfl | hx
    · exact .inl (.inl hx)
    · exact .inr (he ▸ hn)
    · exact .inl (.inr hx)
  kept := by
    rw [hb]
    exact Block.keeps_of_sublist _ ((List.Sublist.refl a).append (List.sublist_cons_self e c))

theorem grows_retain (hd : d.Numbered) (keep : Entry → Bool) :
    Grows ((d.block.filter (!keep ·)).map (·.id)) d (retain keep d).state where
  numbered := ⟨hd.nodup.sublist (List.filter_sublist.map _),
    fun e he => hd.old e (List.filter_sublist.subset he)⟩
  next := Nat.le_refl _
  fresh _ he := .inl (List.filter_sublist.subset he)
  kept := by
    have hkeep : ∀ e ∈ d.block,
        e.id ∉ (d.block.filter (!keep ·)).map (·.id) → keep e = true := by
      intro e he hid
      cases hk : keep e with
      | true => rfl
      | false => exact absurd (List.mem_map_of_mem (List.mem_filter.2 ⟨he, by simp [hk]⟩)) hid
    have hfilter : (d.block.filter fun e => e.id ∉ (d.block.filter (!keep ·)).map (·.id))
        = (d.block.filter keep).filter
          fun e => e.id ∉ (d.block.filter (!keep ·)).map (·.id) := by
      rw [List.filter_filter]
      refine List.filter_congr fun e he => ?_
      rw [Bool.eq_iff_iff, Bool.and_eq_true, decide_eq_true_iff]
      exact ⟨fun h => ⟨h, hkeep e he h⟩, And.left⟩
    rw [Block.Keeps, hfilter]
    exact List.filter_sublist

/-- An action that takes nothing out. -/
def Adds {α : Type} (x : Action Draft α) : Prop := ∀ d, d.Numbered → Grows [] d (x d).state

theorem adds_pure {α : Type} (r : α) : Adds (pure r) := fun _ hd => grows_refl hd

theorem adds_get : Adds get := fun _ hd => grows_refl hd

theorem adds_say (level : Level) (part : Part) (text : String) : Adds (say level part text) :=
  fun _ hd => grows_refl hd

theorem Grows.bind {α β : Type} {x : Action Draft α} {f : α → Action Draft β}
    (hx : Grows gone d (x d).state) (hf : ∀ r, Adds (f r)) :
    Grows gone d ((x >>= f) d).state := by
  rcases hr : (x d).result with e | r
  · have hends : (x >>= f).Ends d (.error e) (x d).state := Ends.bind_error ⟨hr, rfl⟩
    exact hends.2 ▸ hx
  · have hends : (x >>= f).Ends d _ (f r (x d).state).state := Ends.bind ⟨hr, rfl⟩ ⟨rfl, rfl⟩
    exact hends.2 ▸ hx.then (hf r _ hx.numbered)

theorem Adds.bind {α β : Type} {x : Action Draft α} {f : α → Action Draft β} (hx : Adds x)
    (hf : ∀ r, Adds (f r)) : Adds (x >>= f) := fun d hd => (hx d hd).bind hf

/-! ## New entries -/

theorem appAll_apply (is : List X64.Instruction) (d : Draft) :
    appAll is d = ⟨.ok ((Block.program is).renumber d.nextId),
      { d with nextId := d.nextId + is.length }, []⟩ := by
  induction is generalizing d with
  | nil => rfl
  | cons i rest ih =>
    have hi : app i d = ⟨.ok ⟨d.nextId, .machine i, true, none⟩,
      { d with nextId := d.nextId + 1 }, []⟩ := rfl
    rw [appAll, bind_quiet hi, bind_quiet (ih _)]
    simp only [pure_apply, List.length_cons, Nat.add_assoc, Nat.add_comm 1]
    rfl

/-- What becomes of a new entry that is to be put somewhere: it is there, or nowhere. -/
theorem grows_edit (hd : d.Numbered) (hn : d.nextId ≤ n) (he : e.id = n)
    {f : Block → Option Block}
    (hf : ∀ {b b'}, f b = some b' → ∃ a c, b = a ++ c ∧ b' = a ++ e :: c) :
    Grows [] d (edit e.id f ⟨d.block, n + 1⟩).state := by
  rw [edit, bind_quiet (get_apply _)]
  rcases hb : f d.block with _ | b
  · exact grows_supply hd (Nat.le_succ_of_le hn)
  · obtain ⟨a, c, hac, rfl⟩ := hf hb
    exact grows_insert hd hac hn he

/-- A list of new entries in the place of all that were there. -/
theorem grows_renew (d : Draft) (b : Block) :
    Grows (d.block.map (·.id)) d ⟨b.renumber d.nextId, d.nextId + b.length⟩ where
  numbered := by
    refine ⟨?_, fun e he => (Block.mem_renumber he).2⟩
    rw [Block.map_id_renumber]
    exact List.nodup_range'
  next := Nat.le_add_right _ _
  fresh e he := .inr (Block.mem_renumber he).1
  kept := by
    have hnil : (d.block.filter fun e => e.id ∉ d.block.map (·.id)) = [] := by
      refine List.filter_eq_nil_iff.2 fun e he => ?_
      simpa using ⟨e, he, rfl⟩
    rw [Block.Keeps, hnil]
    exact List.nil_sublist _

theorem adds_insertCall (target : EntryId) (c : Call) : Adds (insertCall target c) := by
  intro d hd
  rw [insertCall, bind_quiet (call_apply c d)]
  exact grows_edit hd (Nat.le_refl _) rfl Block.insertBefore_eq_some

theorem adds_insertCalls (cs : List (EntryId × Call)) : Adds (insertCalls cs) := by
  induction cs with
  | nil => exact adds_pure _
  | cons c rest ih =>
    refine (adds_insertCall _ _).bind fun id => ?_
    cases id with
    | none => exact adds_pure _
    | some id => exact ih

end Draft

open Draft

/-- Calls are put in, and nothing is taken out. -/
theorem Layout.adds_install (l : Layout) (k : Nat) (arch : Arch) : Adds (l.install k arch) := by
  rw [Layout.install_eq]
  refine adds_get.bind fun d => ?_
  split
  · exact adds_insertCalls _
  · exact adds_pure _

namespace Markers

variable {m : Markers} {d : Draft}

theorem marker_eq (m : Markers) (kind : MarkerKind) (d : Draft) :
    m.marker kind d = if m.base.toNat + kind.offset < Word.count then
      ⟨.ok (m.entry kind d.nextId), { d with nextId := d.nextId + 1 }, []⟩
    else ⟨.error .addOverflow, d, []⟩ := by
  rw [marker, label]
  split <;> rfl

theorem adds_insert (m : Markers) (target : EntryId) (kind : MarkerKind) (before : Bool) :
    Adds (m.insert target kind before) := by
  intro d hd
  have hmarker := m.marker_eq kind d
  rw [insert]
  by_cases h : m.base.toNat + kind.offset < Word.count
  · rw [if_pos h] at hmarker
    rw [bind_quiet hmarker]
    cases before
    · exact grows_edit hd (Nat.le_refl _) rfl Block.insertAfter_eq_some
    · exact grows_edit hd (Nat.le_refl _) rfl Block.insertBefore_eq_some
  · rw [if_neg h] at hmarker
    rw [bind_apply_error hmarker]
    exact grows_refl hd

/-- There is always a note for the first marker. -/
theorem insert_first (m : Markers) {x : Entry} (hx : d.block.head? = some x) :
    m.insert x.id .instrumented true d
      = ⟨.ok (some d.nextId), ⟨m.entry .instrumented d.nextId :: d.block, d.nextId + 1⟩, []⟩ := by
  have hlt : m.base.toNat + MarkerKind.instrumented.offset < Word.count := m.base.isLt
  have hmarker := m.marker_eq .instrumented d
  rw [if_pos hlt] at hmarker
  rw [insert, bind_quiet hmarker]
  obtain ⟨rest, hb⟩ := List.head?_eq_some_iff.1 hx
  refine Draft.insertBefore_apply (d := ⟨d.block, d.nextId + 1⟩) ?_
  rw [hb]
  simp only [Block.insertBefore, ↓reduceIte]

/-- If the notes do not suffice, doubling stops behind the first marker. -/
theorem double_of_not_fits (hm : ¬m.Fits) (happ : d.block.app ≠ []) :
    ∃ n, d.nextId + d.block.length + 1 ≤ n ∧ m.double d
      = ⟨.error .addOverflow,
        ⟨m.entry .instrumented (d.nextId + d.block.length) :: d.block, n⟩, []⟩ := by
  obtain ⟨last, hlast⟩ := Block.exists_lastApp? happ
  obtain ⟨first, hhead⟩ := Block.exists_head? happ
  obtain ⟨f, l, hf, hp, hl, -, -⟩ := mark_program m d.nextId hlast
  have hplain := m.marker_eq .plain
    ⟨m.entry .instrumented (d.nextId + d.block.length) :: d.block,
      d.nextId + d.block.length + 1⟩
  -- the note of the terminator is the greatest of the three; the one before it may still fit
  have hterminator : ∀ d, m.marker .terminator d = ⟨.error .addOverflow, d, []⟩ := by
    intro d
    rw [marker_eq, if_neg]
    exact fun h => hm (Nat.succ_le_of_lt h)
  rw [double, bind_quiet (get_apply d)]
  simp only [hhead, hlast]
  rw [bind_quiet (duplicateAll_apply _ _),
    bind_quiet (insert_first (d := ⟨d.block, d.nextId + d.block.length⟩) m hhead)]
  simp only [hf]
  by_cases hnote : m.base.toNat + MarkerKind.plain.offset < Word.count
  · rw [if_pos hnote] at hplain
    refine ⟨_, Nat.le_succ _, bind_quiet_eq hplain ?_⟩
    simp only [hp, hl]
    exact bind_apply_error (hterminator _) _
  · rw [if_neg hnote] at hplain
    exact ⟨_, Nat.le_refl _, bind_apply_error hplain _⟩

/-- The entry that doubling has taken out of the block `b`. -/
def takenOut (b : Block) : Except Fault (Option Layout) → List EntryId
  | .ok (some l) => if l.relocated then b.lastApp?.toList.map (·.id) else []
  | _ => []

/-- Besides its terminator, every entry of a block is in its body. -/
theorem filter_takenOut (n : EntryId) (b : Block) :
    (b.filter fun e => e.id ∉ takenOut b (.ok (some (layout n b)))) = b.body := by
  rw [takenOut, layout, Block.body]
  rcases ht : b.terminator? with _ | x
  · simp
  · have hx : b.lastApp? = some x := (Option.filter_eq_some_iff.1 ht).1
    simp [hx]

theorem double_grows (m : Markers) (hd : d.Numbered) :
    Grows (takenOut d.block (m.double d).result) d (m.double d).state := by
  by_cases happ : d.block.app = []
  · rw [double_of_app_eq_nil happ]
    exact grows_refl hd
  by_cases hm : m.Fits
  · rw [double_apply hm hd happ]
    refine ⟨numbered_doubled hd, ?_, ?_, ?_⟩
    · exact Nat.le_add_right_of_le (Nat.le_add_right _ _)
    · intro e he
      simp only [doubled, marked, List.cons_append, List.mem_cons, List.mem_append] at he
      have hcopy : ∀ x ∈ d.block.renumber d.nextId, d.nextId ≤ x.id :=
        fun x hx => (Block.mem_renumber hx).1
      rcases he with rfl | he | rfl | he | rfl | he
      · exact .inr (Nat.le_add_right _ _)
      · exact .inl (d.block.body_sublist.subset he)
      · exact .inr (Nat.le_add_right_of_le (Nat.le_add_right _ _))
      · exact .inr (hcopy e ((Block.body_sublist _).subset (Block.mem_app.1 he).1))
      · exact .inr (Nat.le_add_right_of_le (Nat.le_add_right _ _))
      · exact .inr (hcopy e (Block.toList_terminator?_subset _ he))
    · rw [Block.Keeps, filter_takenOut]
      exact List.Sublist.cons _ (List.sublist_append_left _ _)
  · obtain ⟨n, hn, h⟩ := double_of_not_fits hm happ
    rw [h]
    have hsupply := grows_supply hd (Nat.le_add_right d.nextId d.block.length)
    have hmarker := grows_insert hsupply.numbered (a := []) rfl (Nat.le_refl _)
      (rfl : (m.entry .instrumented (d.nextId + d.block.length)).id = _)
    exact (hsupply.then hmarker).then (grows_supply hmarker.numbered hn)

end Markers

namespace Checker

variable {d : Draft}

/-- The entry that a checker takes out of the block of a draft. -/
def takenOut (c : Checker) (d : Draft) : List EntryId :=
  match d.block.eligibility with
  | .eligible => Markers.takenOut d.block (c.markers.double d).result
  | .sideEffect _ _ => []

theorem processBlock_grows (c : Checker) (hd : d.Numbered) :
    Grows (c.takenOut d) d (c.processBlock d).state := by
  rw [processBlock, bind_quiet (get_apply d), takenOut]
  rcases d.block.eligibility with _ | ⟨id, effect⟩
  · refine (c.markers.double_grows hd).bind fun layout => ?_
    rcases layout with _ | l
    · exact adds_pure _
    refine (l.adds_install _ _).bind fun installed => ?_
    cases installed
    · exact (adds_say _ _ _).bind fun _ => adds_pure _
    · exact adds_get.bind fun _ => (adds_say _ _ _).bind fun _ => adds_pure _
  · exact grows_refl hd

/-- The entries that checkers take out one after another. One that faults is the last. -/
def allTakenOut : List Checker → Draft → List EntryId
  | [], _ => []
  | c :: cs, d => c.takenOut d ++
    match (c.processBlock d).result with
    | .ok _ => allTakenOut cs (c.processBlock d).state
    | .error _ => []

theorem process_grows (cs : List Checker) (t : Thread) (forTrace rebuilding : Bool)
    (hd : d.Numbered) : Grows (allTakenOut cs d) d
      (Host.tellBuilt t forTrace rebuilding (cs.map registration) d).state := by
  induction cs generalizing d with
  | nil => exact grows_refl hd
  | cons c cs ih =>
    have hc := c.processBlock_grows hd
    rw [List.map_cons, allTakenOut]
    rcases hr : (c.processBlock d).result with e | outcome
    · have hends : (Host.tellBuilt t forTrace rebuilding
          (c.registration :: cs.map registration)).Ends d (.error e) (c.processBlock d).state :=
        (ends_get d).bind ((ends_record _ _).bind (Ends.bind_error (Ends.bind_error ⟨hr, rfl⟩)))
      rw [hends.2]
      simpa using hc
    · rw [(Host.tellBuilt_cons (built_ends hr t forTrace rebuilding) ⟨rfl, rfl⟩).2]
      exact hc.trans (ih hc.numbered)

end Checker

end Rerun
