import Rerun.Proofs.Growing

/-!
# What makes a block eligible, and what leaves it so

Whether a block may run twice is decided by the entries of the program alone: the first one with an
effect is named, by the effect of the lowest rank if it has several
(`eligibility_eq_sideEffect_iff`). In a block that checks itself, the marker of the plain run stands
between what is left of the block and copies of its program (`Parted`), whatever identities the
entries have; each call that is put in leaves it so. Hence all of it, and the part from this marker
on, may run twice if the block may (`eligibility_stable`).
-/

namespace Rerun

open Rerun.Action Draft

namespace SideEffect

/-- An entry with several effects is named by the one of the lowest rank. -/
def rank : SideEffect → Nat
  | systemCall => 0
  | interrupt => 1
  | memoryWrite => 2

theorem rank_inj {f g : SideEffect} (h : f.rank = g.rank) : f = g := by
  cases f <;> cases g <;> first | rfl | cases h

end SideEffect

namespace Entry

variable {e : Entry} {f : SideEffect}

/-- An entry has an effect. -/
def Shows (e : Entry) : SideEffect → Prop
  | .systemCall => e.isSystemCall
  | .interrupt => e.isInterrupt
  | .memoryWrite => e.writesMemory

/-- An entry has an effect and none of a lower rank. -/
structure Leads (e : Entry) (f : SideEffect) : Prop where
  shows : e.Shows f
  rank_le : ∀ g, e.Shows g → f.rank ≤ g.rank

theorem sideEffect?_cases (e : Entry) :
    (∃ f, e.sideEffect? = some f ∧ e.Leads f) ∨ e.sideEffect? = none ∧ ∀ f, ¬e.Shows f := by
  rw [sideEffect?]
  split
  · next hcall => exact .inl ⟨_, rfl, hcall, fun _ _ => Nat.zero_le _⟩
  next hcall =>
  split
  · next hinterrupt =>
    refine .inl ⟨_, rfl, hinterrupt, fun g hg => ?_⟩
    cases g with
    | systemCall => exact absurd hg hcall
    | interrupt => exact Nat.le_refl _
    | memoryWrite => exact Nat.le_succ _
  next hinterrupt =>
  split
  · next hwrite =>
    refine .inl ⟨_, rfl, hwrite, fun g hg => ?_⟩
    cases g with
    | systemCall => exact absurd hg hcall
    | interrupt => exact absurd hg hinterrupt
    | memoryWrite => exact Nat.le_refl _
  · next hwrite =>
    refine .inr ⟨rfl, fun g hg => ?_⟩
    cases g with
    | systemCall => exact hcall hg
    | interrupt => exact hinterrupt hg
    | memoryWrite => exact hwrite hg

theorem sideEffect?_eq_none_iff : e.sideEffect? = none ↔ ∀ f, ¬e.Shows f := by
  rcases e.sideEffect?_cases with ⟨f, hf, hlead⟩ | ⟨hnone, hshows⟩
  · rw [hf]
    exact iff_of_false nofun fun h => h f hlead.shows
  · exact iff_of_true hnone hshows

theorem sideEffect?_eq_some_iff : e.sideEffect? = some f ↔ e.Leads f := by
  rcases e.sideEffect?_cases with ⟨g, hg, hlead⟩ | ⟨hnone, hshows⟩
  · rw [hg, Option.some.injEq]
    constructor
    · rintro rfl
      exact hlead
    · intro h
      exact SideEffect.rank_inj
        (Nat.le_antisymm (hlead.rank_le f h.shows) (h.rank_le g hlead.shows))
  · rw [hnone]
    exact iff_of_false nofun fun h => hshows f h.shows

/-- Asking the system for a service by an interrupt counts as asking for a service. -/
example : (Entry.mk 0 (.machine ⟨.int, .interrupt, [.immediate .b8 0x80], [], "int 80h"⟩)
    true none).sideEffect? = some .systemCall := by decide

end Entry

namespace Block

variable {b : Block} {id target : EntryId} {f : SideEffect}

/-! ## Classes of blocks -/

theorem eligibility_eq_sideEffect_iff : b.eligibility = .sideEffect id f
    ↔ ∃ pre e post, b.app = pre ++ e :: post ∧ (∀ x ∈ pre, x.sideEffect? = none) ∧ e.id = id
      ∧ e.sideEffect? = some f := by
  constructor
  · intro h
    rw [eligibility_eq] at h
    rcases hfound : b.app.findSome? obstacle? with _ | x
    · rw [hfound] at h
      cases h
    · rw [hfound, Option.getD_some] at h
      obtain ⟨pre, e, post, happ, he, hpre⟩ := List.findSome?_eq_some_iff.1 (h ▸ hfound)
      obtain ⟨g, hg, heq⟩ := Option.map_eq_some_iff.1 he
      cases heq
      exact ⟨pre, e, post, happ, fun x hx => Option.map_eq_none_iff.1 (hpre x hx), rfl, hg⟩
  · rintro ⟨pre, e, post, happ, hpre, rfl, he⟩
    exact eligibility_of_app_eq happ hpre he

/-! ## Edits without identities of their own -/

theorem exists_insertBefore (h : ∃ x ∈ b, x.id = target) (e : Entry) :
    ∃ b', b.insertBefore target e = some b' := by
  induction b with
  | nil => exact absurd h (by simp)
  | cons y rest ih =>
    rw [insertBefore]
    split
    · exact ⟨_, rfl⟩
    · next hy =>
      obtain ⟨b', hb'⟩ := ih (by simpa [hy] using h)
      exact ⟨_, by rw [hb']; rfl⟩

theorem exists_remove (h : ∃ x ∈ b, x.id = target) : ∃ x b', b.remove target = some (x, b') := by
  induction b with
  | nil => exact absurd h (by simp)
  | cons y rest ih =>
    rw [remove]
    split
    · exact ⟨_, _, rfl⟩
    · next hy =>
      obtain ⟨x, b', hb'⟩ := ih (by simpa [hy] using h)
      exact ⟨_, _, by rw [hb']; rfl⟩

end Block

namespace Markers

variable {m : Markers} {l : Layout} {program copies a b : Block} {e : Entry} {d : Draft}
  {target : EntryId} {cs : List (EntryId × Call)}

/-! ## Both sides of the marker of the plain run -/

/-- The marker of the plain run stands in the block, in front of it there is nothing of the program
but entries of `program`, and behind it its entries are `copies`. -/
def Parts (m : Markers) (l : Layout) (program copies b : Block) : Prop :=
  ∃ front back, b = front ++ m.entry .plain l.plain :: back ∧ (∀ e ∈ front, e.id ≠ l.plain)
    ∧ (Block.app front).Sublist program ∧ Block.app back = copies

/-- A new entry of a tool may go anywhere. -/
theorem Parts.insert (h : m.Parts l program copies (a ++ b)) (he : e.isApp = false)
    (hid : e.id ≠ l.plain) : m.Parts l program copies (a ++ e :: b) := by
  obtain ⟨front, back, heq, hne, hsub, hcopies⟩ := h
  have happ (u v : Block) : Block.app (u ++ e :: v) = Block.app (u ++ v) := by
    simp [Block.app, he]
  have hne' (u v : Block) (huv : ∀ y ∈ u ++ v, y.id ≠ l.plain) :
      ∀ y ∈ u ++ e :: v, y.id ≠ l.plain := by
    intro y hy
    rcases List.mem_cons.1 (List.perm_middle.mem_iff.1 hy) with rfl | hy
    · exact hid
    · exact huv y hy
  rcases List.append_eq_append_iff.1 heq with ⟨u, rfl, rfl⟩ | ⟨u, rfl, hback⟩
  · exact ⟨a ++ e :: u, back, by simp, hne' a u hne, by rwa [happ], hcopies⟩
  rcases u with _ | ⟨p, u⟩
  · -- right in front of the marker
    obtain rfl : m.entry .plain l.plain :: back = b := hback
    refine ⟨front ++ [e], back, by simp, hne' front [] (by simpa using hne), ?_, hcopies⟩
    rwa [happ, List.append_nil]
  · obtain ⟨rfl, rfl⟩ := List.cons.inj hback
    exact ⟨front, u ++ e :: b, by simp, hne, hsub, by rwa [happ]⟩

/-- The three markers are in the block of a draft, and the one of the plain run parts it. -/
structure Parted (m : Markers) (l : Layout) (program copies : Block) (d : Draft) : Prop where
  markers : ∀ i ∈ l.markers, i < d.nextId ∧ ∃ x ∈ d.block, x.id = i
  parts : m.Parts l program copies d.block

theorem Parted.insertCall (h : m.Parted l program copies d) (ht : target ∈ l.markers) (c : Call) :
    ∃ d', (insertCall target c).Ends d (.ok (some d.nextId)) d'
      ∧ m.Parted l program copies d' := by
  obtain ⟨b, hb⟩ := Block.exists_insertBefore (h.markers target ht).2 (called c d.nextId)
  refine ⟨_, ends_of_eq (insertCall_apply hb), ?_⟩
  obtain ⟨u, v, hblock, rfl⟩ := Block.insertBefore_eq_some hb
  constructor
  · intro i hi
    obtain ⟨hlt, x, hx, hid⟩ := h.markers i hi
    refine ⟨Nat.lt_succ_of_lt hlt, x, List.perm_middle.mem_iff.2 (List.mem_cons_of_mem _ ?_), hid⟩
    rwa [← hblock]
  · have hplain := (h.markers l.plain (by simp [Layout.markers])).1
    exact (hblock ▸ h.parts).insert rfl (Nat.ne_of_gt hplain)

theorem Parted.insertCalls (h : m.Parted l program copies d) (ht : ∀ p ∈ cs, p.1 ∈ l.markers) :
    ∃ d', (insertCalls cs).Ends d (.ok true) d' ∧ m.Parted l program copies d' := by
  induction cs generalizing d with
  | nil => exact ⟨d, ends_pure true d, h⟩
  | cons p rest ih =>
    obtain ⟨d₁, hcall, h₁⟩ := h.insertCall (ht p List.mem_cons_self) p.2
    obtain ⟨d', hrest, h'⟩ := ih h₁ fun q hq => ht q (List.mem_cons_of_mem _ hq)
    exact ⟨d', hcall.bind hrest, h'⟩

theorem Parted.install (h : m.Parted l program copies d) (k : Nat) (arch : Arch) :
    ∃ d', (l.install k arch).Ends d (.ok true) d' ∧ m.Parted l program copies d' := by
  have hall : l.markers.all d.block.has := by
    simpa [Block.has] using fun i hi => (h.markers i hi).2
  have htargets : ∀ p ∈ l.calls k arch, p.1 ∈ l.markers := by simp [Layout.calls, Layout.markers]
  obtain ⟨d', hcalls, h'⟩ := h.insertCalls htargets
  refine ⟨d', ?_, h'⟩
  rw [Layout.install_eq]
  refine (ends_get d).bind ?_
  rw [if_pos hall]
  exact hcalls

/-- Taking a terminator out behind a new marker. -/
theorem exists_removed (hd : ∀ e ∈ d.block, e.id < d.nextId) (he : e ∈ d.block) :
    ∃ x b, Block.remove e.id (m.entry .instrumented (d.nextId + d.block.length) :: d.block)
      = some (x, m.entry .instrumented (d.nextId + d.block.length) :: b)
    ∧ b.Sublist d.block := by
  obtain ⟨x, b, hx⟩ := Block.exists_remove ⟨e, he, rfl⟩
  have hne : (m.entry .instrumented (d.nextId + d.block.length)).id ≠ e.id :=
    Nat.ne_of_gt (Nat.lt_add_right _ (hd e he))
  refine ⟨x, b, ?_, ?_⟩
  · rw [Block.remove, if_neg hne, hx]
    rfl
  · obtain ⟨-, u, v, hblock, rfl⟩ := Block.remove_eq_some hx
    rw [hblock]
    exact (List.sublist_cons_self x v).append_left u

/-- Doubling parts the block of any draft whose identities have all been given out; an entry need
not have one of its own. -/
theorem exists_parted (hm : m.Fits) (hd : ∀ e ∈ d.block, e.id < d.nextId)
    (happ : d.block.app ≠ []) :
    ∃ l d', m.double.Ends d (.ok (some l)) d'
      ∧ m.Parted l d.block.app (d.block.renumber d.nextId).app d' := by
  obtain ⟨last, hlast⟩ := Block.exists_lastApp? happ
  obtain ⟨b, hsub, hb⟩ : ∃ b : Block, b.Sublist d.block ∧ if last.isTerminator then
        ∃ x, Block.remove last.id (m.entry .instrumented (d.nextId + d.block.length) :: d.block)
          = some (x, m.entry .instrumented (d.nextId + d.block.length) :: b)
      else b = d.block := by
    by_cases hterm : last.isTerminator
    · have hmem : last ∈ d.block := List.mem_reverse.1 (List.mem_of_find?_eq_some hlast)
      obtain ⟨x, b, hx, hsub⟩ := exists_removed (m := m) hd hmem
      exact ⟨b, hsub, by rw [if_pos hterm]; exact ⟨x, hx⟩⟩
    · exact ⟨d.block, List.Sublist.refl _, by rw [if_neg hterm]⟩
  refine ⟨_, _, ends_of_eq (double_eq hm hlast hb), ?_,
    m.entry .instrumented (d.nextId + d.block.length) :: b, _, rfl, ?_, ?_, ?_⟩
  · intro i hi
    simp only [Layout.markers, layout, List.mem_cons, List.not_mem_nil, or_false] at hi
    rcases hi with rfl | rfl | rfl
    · exact ⟨Nat.lt_add_of_pos_right (by decide), m.entry .instrumented _, by simp, rfl⟩
    · exact ⟨Nat.add_lt_add_left (by decide : 1 < 3) _, m.entry .plain _, by simp [marked], rfl⟩
    · exact ⟨Nat.lt_succ_self _, m.entry .terminator _, by simp [marked], rfl⟩
  · intro e he
    rcases List.mem_cons.1 he with rfl | he
    · exact Nat.ne_of_lt (Nat.lt_succ_self _)
    · exact Nat.ne_of_lt (Nat.lt_add_right 1 (Nat.lt_add_right _ (hd e (hsub.subset he))))
  · exact hsub.filter _
  · have hlabel (n : EntryId) (c : Block) : Block.app (m.entry .terminator n :: c) = Block.app c :=
      rfl
    rw [Block.app_append, hlabel, ← Block.app_append, ← Block.app_body (Block.nodup_renumber _ _),
      Block.app_app]

end Markers

namespace Checker

open Markers

variable {c : Checker} {d : Draft}

theorem processBlock_parted (hm : c.markers.Fits) (hd : ∀ e ∈ d.block, e.id < d.nextId)
    (h : d.block.eligibility = .eligible) (happ : d.block.app ≠ []) :
    ∃ l d', c.processBlock.Ends d (.ok (.checked l)) d'
      ∧ c.markers.Parted l d.block.app (d.block.renumber d.nextId).app d' := by
  obtain ⟨l, d₁, hdouble, h₁⟩ := exists_parted hm hd happ
  obtain ⟨d', hinstall, h'⟩ := h₁.install c.slot c.arch
  refine ⟨l, d', (ends_get d).bind ?_, h'⟩
  rw [h]
  refine hdouble.bind (hinstall.bind ?_)
  rw [if_pos rfl]
  exact (ends_get d').bind ((ends_say _ _ _ d').bind (ends_pure _ d'))

/-- Blocks with the same program, whatever tools have put in, are of one class: a block is named by
the first entry of its program that has an effect, or else it is eligible. A checker leaves an
eligible block eligible, all of it and the part from the marker of the plain run on, behind which
the program comes once more. It does not touch any other block. -/
theorem eligibility_stable (hc : c.Registered) :
    (∀ a b : Block, a.app = b.app → a.eligibility = b.eligibility)
    ∧ (∀ b : Block, b.eligibility = .eligible ↔ ∀ e ∈ b.app, ∀ f, ¬e.Shows f)
    ∧ (∀ (b : Block) id f, b.eligibility = .sideEffect id f
      ↔ ∃ pre e post, b.app = pre ++ e :: post ∧ (∀ x ∈ pre, ∀ g, ¬x.Shows g) ∧ e.id = id
        ∧ e.Leads f)
    ∧ (∀ d : Draft, (∀ e ∈ d.block, e.id < d.nextId) → d.block.eligibility = .eligible →
      (d.block.app = [] → (c.processBlock d).result = .ok .empty ∧ (c.processBlock d).state = d)
      ∧ (d.block.app ≠ [] → ∃ l front back, (c.processBlock d).result = .ok (.checked l)
        ∧ (c.processBlock d).state.block = front ++ c.markers.entry .plain l.plain :: back
        ∧ (∀ e ∈ front, e.id ≠ l.plain)
        ∧ (c.processBlock d).state.block.eligibility = .eligible
        ∧ Block.eligibility (c.markers.entry .plain l.plain :: back) = .eligible
        ∧ Block.app back = (d.block.renumber d.nextId).app))
    ∧ ∀ (d : Draft) id f, d.block.eligibility = .sideEffect id f →
      (c.processBlock d).result = .ok (.sideEffect id f) ∧ (c.processBlock d).state = d := by
  refine ⟨fun a b happ => ?_, fun b => ?_, fun b id f => ?_, fun d hd h => ⟨fun happ => ?_,
    fun happ => ?_⟩, fun d id f h => ?_⟩
  · rw [Block.eligibility_eq, Block.eligibility_eq, happ]
  · simp only [Block.eligibility_eq_eligible_iff, Entry.sideEffect?_eq_none_iff]
  · simp only [Block.eligibility_eq_sideEffect_iff, Entry.sideEffect?_eq_none_iff,
      Entry.sideEffect?_eq_some_iff]
  · rw [processBlock_empty h happ]
    exact ⟨rfl, rfl⟩
  · obtain ⟨l, d', hp, -, front, back, hblock, hfront, hsub, hback⟩ :=
      processBlock_parted hc.fits hd h happ
    have hprogram := Block.eligibility_eq_eligible_iff.1 h
    have hcopies : Block.eligibility (c.markers.entry .plain l.plain :: back) = .eligible := by
      refine Block.eligibility_eq_eligible_iff.2 ?_
      show ∀ e ∈ Block.app back, e.sideEffect? = none
      rw [hback]
      exact Block.sideEffect?_renumber hprogram d.nextId
    rw [hp.1, hp.2]
    refine ⟨l, front, back, rfl, hblock, hfront, ?_, hcopies, hback⟩
    rw [hblock, Block.eligibility_eq_eligible_iff, Block.app_append, List.forall_mem_append]
    exact ⟨fun e he => hprogram e (hsub.subset he), Block.eligibility_eq_eligible_iff.1 hcopies⟩
  · rw [processBlock_sideEffect h]
    exact ⟨rfl, rfl⟩

end Checker

/-- Pushes a general register. -/
def X64.Instruction.push (n : BitVec 4) : X64.Instruction :=
  ⟨.other "Push", .next, [.register (.gpr (.full n.toFin))], [.write], "push"⟩

namespace Draft

/-- A block with an instruction of a tool that writes memory, and with one instruction of the
program in it twice, identity and all. -/
def repeated : Draft where
  block := [⟨0, .machine (.increment 0), true, none⟩,
    ⟨1, .machine (.push 0), false, none⟩, ⟨0, .machine (.increment 0), true, none⟩,
    ⟨2, .machine .ret, true, none⟩]
  nextId := 3

end Draft

theorem Checker.eligibility_stable_repeated :
    first.Registered ∧ repeated.block.eligibility = .eligible
      ∧ ∃ l front back, (first.processBlock repeated).result = .ok (.checked l)
        ∧ (first.processBlock repeated).state.block
          = front ++ first.markers.entry .plain l.plain :: back
        ∧ (first.processBlock repeated).state.block.eligibility = .eligible
        ∧ Block.eligibility (first.markers.entry .plain l.plain :: back) = .eligible
        ∧ (Block.app back).map (·.id) = [3, 5, 6] := by
  have heligible : repeated.block.eligibility = .eligible := by decide
  obtain ⟨-, -, -, hstable, -⟩ := eligibility_stable registered_first
  obtain ⟨l, front, back, hresult, hblock, -, hall, hpart, hback⟩ :=
    (hstable repeated (by decide) heligible).2 (by decide)
  refine ⟨registered_first, heligible, l, front, back, hresult, hblock, hall, hpart, ?_⟩
  rw [hback]
  rfl

end Rerun
