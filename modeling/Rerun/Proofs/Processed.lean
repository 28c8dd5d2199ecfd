import Rerun.Proofs.Doubled
import Rerun.Proofs.Registered

/-!
# What a checker makes of a block

A block with a side effect of its own and a block without a program stay as they are. Any other
block becomes four calls and three markers around its body, the copy of its program and the
terminator (`processBlock_checked`). The markers cannot get lost on the way
(`processBlock_shape`).
-/

namespace Rerun

namespace Block

variable {b pre post : Block} {e : Entry} {f : SideEffect}

/-! ## Eligibility -/

/-- What rules a second run out, entry by entry. -/
def obstacle? (e : Entry) : Option Eligibility := e.sideEffect?.map (.sideEffect e.id)

theorem eligibility_eq (b : Block) : b.eligibility = (b.app.findSome? obstacle?).getD .eligible :=
  rfl

theorem eligibility_eq_eligible_iff :
    b.eligibility = .eligible ↔ ∀ e ∈ b.app, e.sideEffect? = none := by
  rw [eligibility_eq]
  cases h : b.app.findSome? obstacle? with
  | none =>
    rw [List.findSome?_eq_none_iff] at h
    simpa [obstacle?] using h
  | some x =>
    obtain ⟨e, he, hx⟩ := List.exists_of_findSome?_eq_some h
    obtain ⟨f, hf, rfl⟩ := Option.map_eq_some_iff.1 hx
    simp only [Option.getD_some, reduceCtorEq, false_iff]
    intro hall
    rw [hall e he] at hf
    cases hf

/-- The first entry of the program with an effect is the one that is named. -/
theorem eligibility_of_app_eq (hb : b.app = pre ++ e :: post)
    (hpre : ∀ x ∈ pre, x.sideEffect? = none) (he : e.sideEffect? = some f) :
    b.eligibility = .sideEffect e.id f := by
  have hnone : pre.findSome? obstacle? = none := by
    rw [List.findSome?_eq_none_iff]
    intro x hx
    rw [obstacle?, hpre x hx, Option.map_none]
  rw [eligibility_eq, hb, List.findSome?_append, hnone, List.findSome?_cons, obstacle?, he]
  rfl

/-- Copies have no effects that the block has not. -/
theorem sideEffect?_renumber (h : ∀ e ∈ b.app, e.sideEffect? = none) (n : EntryId) :
    ∀ e ∈ (b.renumber n).app, e.sideEffect? = none := by
  intro e he
  obtain ⟨x, hx, i, rfl⟩ := exists_of_mem_app_renumber he
  exact h x hx

end Block

namespace Markers

variable {m : Markers} {a b : Block} {e : Entry} {kind : MarkerKind} {n : EntryId}

/-! ## Finding the markers -/

/-- A note is one of the three of a checker. -/
def Covers (m : Markers) (note : Note) : Prop :=
  m.base.toNat ≤ note.toNat ∧ note.toNat < m.base.toNat + count

/-- No entry of a block carries a note of the checker. -/
def Unmarked (m : Markers) (b : Block) : Prop :=
  ∀ e ∈ b, ∀ note, e.note = some note → ¬m.Covers note

theorem Unmarked.append (ha : m.Unmarked a) (hb : m.Unmarked b) : m.Unmarked (a ++ b) :=
  fun e he => (List.mem_append.1 he).elim (ha e) (hb e)

theorem Unmarked.subset (hb : m.Unmarked b) (h : a ⊆ b) : m.Unmarked a :=
  fun e he => hb e (h he)

theorem Unmarked.renumber (hb : m.Unmarked b) (n : EntryId) : m.Unmarked (b.renumber n) := by
  intro e he note hnote
  obtain ⟨x, hx, i, rfl⟩ := Block.exists_of_mem_renumber he
  exact hb x hx note hnote

theorem unmarked_called (m : Markers) (c : Call) (n : EntryId) :
    m.Unmarked [Draft.called c n] := by
  intro e he note hnote
  rw [List.mem_singleton.1 he] at hnote
  cases hnote

theorem toNat_label (hm : m.Fits) (kind : MarkerKind) :
    (m.base + BitVec.ofNat 64 kind.offset).toNat = m.base.toNat + kind.offset := by
  have hk := offset_lt kind
  rw [Fits, Word.count] at hm
  rw [BitVec.toNat_add, BitVec.toNat_ofNat]
  omega

theorem label_injective (hm : m.Fits) {kind kind' : MarkerKind}
    (h : m.base + BitVec.ofNat 64 kind.offset = m.base + BitVec.ofNat 64 kind'.offset) :
    kind = kind' := by
  have hoff : kind.offset = kind'.offset := by
    have := congrArg BitVec.toNat h
    rw [toNat_label hm, toNat_label hm] at this
    omega
  cases kind <;> cases kind' <;> first | rfl | cases hoff

theorem kindOfNote_cons (hm : m.Fits) (note : Note) (kind : MarkerKind) (rest : List MarkerKind) :
    m.kindOfNote note (kind :: rest)
      = if m.base + BitVec.ofNat 64 kind.offset = note then .ok (some kind)
        else m.kindOfNote note rest := by
  rw [kindOfNote, label_eq hm]
  rfl

/-- The kind of a note of the range is found wherever it stands on the list. -/
theorem kindOfNote_label (hm : m.Fits) {kinds : List MarkerKind} (hk : kind ∈ kinds) :
    m.kindOfNote (m.base + BitVec.ofNat 64 kind.offset) kinds = .ok (some kind) := by
  induction kinds with
  | nil => cases hk
  | cons kind' rest ih =>
    rw [kindOfNote_cons hm]
    split
    · next h => rw [label_injective hm h]
    · next h =>
      rcases List.mem_cons.1 hk with rfl | hk
      · exact absurd rfl h
      · exact ih hk

theorem kindOfNote_eq_none (hm : m.Fits) {note : Note} (hn : ¬m.Covers note)
    (kinds : List MarkerKind) : m.kindOfNote note kinds = .ok none := by
  induction kinds with
  | nil => rfl
  | cons kind rest ih =>
    have hk := offset_lt kind
    rw [kindOfNote_cons hm, if_neg ?_, ih]
    rintro rfl
    rw [Covers, toNat_label hm] at hn
    omega

theorem kindOf_entry (hm : m.Fits) (kind : MarkerKind) (n : EntryId) :
    m.kindOf (m.entry kind n) = .ok (some kind) :=
  kindOfNote_label hm (by cases kind <;> decide)

theorem kindOf_eq_none (hm : m.Fits) (he : ∀ note, e.note = some note → ¬m.Covers note) :
    m.kindOf e = .ok none := by
  rw [kindOf]
  cases h : e.note with
  | none => rfl
  | some note => exact kindOfNote_eq_none hm (he note h) _

theorem scan_entry (hm : m.Fits) (kind : MarkerKind) (n : EntryId) (b : Block) :
    m.scan (m.entry kind n :: b) = return (n, kind) :: (← m.scan b) := by
  rw [scan, kindOf_entry hm]
  rfl

/-- Entries that carry none of the notes are passed over. -/
theorem scan_append (hm : m.Fits) (ha : m.Unmarked a) (b : Block) : m.scan (a ++ b) = m.scan b := by
  induction a with
  | nil => rfl
  | cons e rest ih =>
    rw [List.cons_append, scan, kindOf_eq_none hm (ha e List.mem_cons_self)]
    exact ih fun x hx => ha x (List.mem_cons_of_mem _ hx)

/-- There is nothing to double in a block without a program. -/
theorem double_of_app_eq_nil {d : Draft} (happ : d.block.app = []) :
    m.double d = ⟨.ok none, d, []⟩ := by
  have hlast : d.block.lastApp? = none := by
    rw [Block.lastApp?_eq_getLast?, happ]
    rfl
  rw [double]
  refine Action.bind_quiet_eq (Draft.get_apply d) ?_
  simp only [hlast]
  cases d.block.head? <;> rfl

end Markers

namespace Checker

open Rerun.Action Draft

variable {c : Checker} {d : Draft} {b : Block} {n id : EntryId} {f : SideEffect}

/-! ## Blocks that a checker has been through -/

/-- A block that checks itself. The copies take identities from `n` on, the markers the three after
these and the calls the next four. -/
def processed (c : Checker) (n : EntryId) (b : Block) : Block :=
  called (.save c.slot false) (n + b.length + 3)
    :: c.markers.entry .instrumented (n + b.length)
    :: (b.body ++ called (.save c.slot true) (n + b.length + 4)
      :: called (.restore c.slot) (n + b.length + 5)
      :: c.markers.entry .plain (n + b.length + 1)
      :: ((b.renumber n).body.app ++ called (.compare c.slot c.arch) (n + b.length + 6)
        :: c.markers.entry .terminator (n + b.length + 2) :: (b.renumber n).terminator?.toList))

/-- A block that checks itself, without its terminator. -/
def checkedBody (c : Checker) (n : EntryId) (b : Block) : Block :=
  called (.save c.slot false) (n + b.length + 3)
    :: c.markers.entry .instrumented (n + b.length)
    :: (b.body ++ called (.save c.slot true) (n + b.length + 4)
      :: called (.restore c.slot) (n + b.length + 5)
      :: c.markers.entry .plain (n + b.length + 1)
      :: ((b.renumber n).body.app ++ [called (.compare c.slot c.arch) (n + b.length + 6),
        c.markers.entry .terminator (n + b.length + 2)]))

theorem processed_eq (c : Checker) (n : EntryId) (b : Block) :
    c.processed n b = c.checkedBody n b ++ (b.renumber n).terminator?.toList := by
  simp [processed, checkedBody]

/-- The copy belongs to the program as well. -/
theorem app_checkedBody (c : Checker) (n : EntryId) (b : Block) :
    (c.checkedBody n b).app = b.body.app ++ (b.renumber n).body.app := by
  have hcall : ∀ x i (a : Block), Block.app (called x i :: a) = a.app := fun _ _ _ => rfl
  have hmark : ∀ kind i (a : Block), Block.app (c.markers.entry kind i :: a) = a.app :=
    fun _ _ _ => rfl
  rw [checkedBody, hcall, hmark, Block.app_append, hcall, hcall, hmark, Block.app_append,
    Block.app_app, hcall, hmark]
  exact congrArg (b.body.app ++ ·) (List.append_nil _)

/-- The terminator of a block that checks itself is the copy of the one it had. -/
theorem body_processed (hn : ((c.processed n b).map (·.id)).Nodup) :
    (c.processed n b).body = c.checkedBody n b
      ∧ (c.processed n b).terminator? = (b.renumber n).terminator? := by
  rw [processed_eq] at hn ⊢
  rcases ht : (b.renumber n).terminator? with _ | x
  · have hcopy := Block.body_of_terminator?_eq_none ht
    have hnone : (c.checkedBody n b).terminator? = none := by
      rw [Block.terminator?_eq_none_iff, app_checkedBody, hcopy, List.getLast?_append]
      rw [Block.terminator?_eq_none_iff] at ht
      intro y hy
      rcases hlast : (b.renumber n).app.getLast? with _ | x
      · -- without a program there is no last entry of it either
        have hlength := b.length_app_renumber n
        rw [List.getLast?_eq_none_iff.1 hlast] at hlength
        have hnil : b.app = [] := List.eq_nil_of_length_eq_zero hlength.symm
        have happ : b.body.app = [] :=
          List.sublist_nil.1 (hnil ▸ (b.body_sublist.filter _ : b.body.app.Sublist b.app))
        rw [hlast, happ] at hy
        cases hy
      · rw [hlast] at hy
        cases hy
        exact ht y hlast
    simp [hnone, Block.body_of_terminator?_eq_none]
  · obtain ⟨hx, hterm, -⟩ := Block.terminator?_eq_some_iff.1 ht
    rw [ht] at hn
    have hsome : (c.checkedBody n b ++ [x]).terminator? = some x :=
      Block.terminator?_eq_some_iff.2 ⟨hx, hterm, _, [], rfl, rfl⟩
    exact ⟨(Block.body_append hn hsome).trans (List.append_nil _), hsome⟩

/-- What is said about a block that checks itself. -/
def processedText (c : Checker) (n : EntryId) (b : Block) : String :=
  "block checked: " ++ toString (c.processed n b).length ++ " instructions after transform"

theorem processBlock_sideEffect (h : d.block.eligibility = .sideEffect id f) :
    c.processBlock d = ⟨.ok (.sideEffect id f), d,
      [.message ⟨.debug, .checker, "block passes through unchecked: " ++ f.name⟩]⟩ := by
  rw [processBlock]
  refine bind_quiet_eq (get_apply d) ?_
  rw [h]
  rfl

theorem processBlock_empty (h : d.block.eligibility = .eligible) (happ : d.block.app = []) :
    c.processBlock d = ⟨.ok .empty, d, []⟩ := by
  rw [processBlock]
  refine bind_quiet_eq (get_apply d) ?_
  rw [h]
  exact bind_quiet_eq (Markers.double_of_app_eq_nil happ) rfl

theorem processBlock_checked (hm : c.markers.Fits) (hd : d.Numbered)
    (h : d.block.eligibility = .eligible) (happ : d.block.app ≠ []) :
    c.processBlock d = ⟨.ok (.checked (Markers.layout d.nextId d.block)),
      ⟨c.processed d.nextId d.block, d.nextId + d.block.length + 7⟩,
      [.message ⟨.trace, .doubling, c.markers.doubledText d.nextId d.block⟩,
        .message ⟨.debug, .checker, c.processedText d.nextId d.block⟩]⟩
    ∧ Numbered ⟨c.processed d.nextId d.block, d.nextId + d.block.length + 7⟩ := by
  obtain ⟨hi, hn⟩ := Layout.install_apply (l := Markers.layout d.nextId d.block) (a := [])
    c.slot c.arch rfl rfl rfl (Markers.numbered_doubled (m := c.markers) hd)
  refine ⟨?_, hn⟩
  rw [processBlock]
  refine bind_quiet_eq (get_apply d) ?_
  rw [h]
  refine bind_ok_eq (Markers.double_apply hm hd happ) ?_
  refine bind_quiet_eq hi ?_
  rw [if_pos rfl]
  refine bind_quiet_eq (get_apply _) ?_
  exact bind_said_eq rfl

/-- The draft `d'` checks the block of `d`, whose program ends in `last`: the body runs between the
first two markers, the copy of the program between the other two. -/
structure Checks (c : Checker) (d : Draft) (last : Entry) (l : Layout) (d' : Draft) : Prop where
  /-- Calls, markers, body, copy and terminator. -/
  layout : ∃ i₀ i₁ i₂ i₃ copy term,
    d'.block = [called (.save c.slot false) i₀, c.markers.entry .instrumented l.instrumented]
        ++ (if last.isTerminator then d.block.filter (fun e => e.id ≠ last.id) else d.block)
        ++ [called (.save c.slot true) i₁, called (.restore c.slot) i₂,
          c.markers.entry .plain l.plain]
        ++ copy
        ++ [called (.compare c.slot c.arch) i₃, c.markers.entry .terminator l.terminator]
        ++ term
      ∧ (copy ++ term).map (fun e => (e.content, e.isApp, e.note))
        = d.block.app.map (fun e => (e.content, e.isApp, e.note))
      ∧ (term.length = if last.isTerminator then 1 else 0)
      ∧ ∀ e ∈ copy ++ term, d.nextId ≤ e.id
  numbered : d'.Numbered
  relocated : l.relocated = last.isTerminator
  scan : c.markers.Unmarked d.block →
    c.markers.scan d'.block
      = .ok [(l.instrumented, .instrumented), (l.plain, .plain), (l.terminator, .terminator)]

theorem scan_processed (hm : c.markers.Fits) {b : Block} (n : EntryId)
    (hb : c.markers.Unmarked b) :
    c.markers.scan (c.processed n b) = .ok [(n + b.length, .instrumented),
      (n + b.length + 1, .plain), (n + b.length + 2, .terminator)] := by
  have hbody : c.markers.Unmarked b.body := hb.subset b.body_sublist.subset
  have hcopy : c.markers.Unmarked (b.renumber n).body.app :=
    (hb.renumber n).subset (List.filter_sublist.trans (b.renumber n).body_sublist).subset
  have hterm : c.markers.Unmarked (b.renumber n).terminator?.toList :=
    (hb.renumber n).subset (b.renumber n).toList_terminator?_subset
  have hcalled := Markers.unmarked_called c.markers
  have h : c.processed n b
      = [called (.save c.slot false) (n + b.length + 3)]
        ++ c.markers.entry .instrumented (n + b.length)
        :: ((b.body ++ [called (.save c.slot true) (n + b.length + 4)]
            ++ [called (.restore c.slot) (n + b.length + 5)])
          ++ c.markers.entry .plain (n + b.length + 1)
          :: (((b.renumber n).body.app ++ [called (.compare c.slot c.arch) (n + b.length + 6)])
            ++ c.markers.entry .terminator (n + b.length + 2)
            :: ((b.renumber n).terminator?.toList ++ []))) := by
    simp [processed]
  rw [h, Markers.scan_append hm (hcalled _ _), Markers.scan_entry hm,
    Markers.scan_append hm ((hbody.append (hcalled _ _)).append (hcalled _ _)),
    Markers.scan_entry hm, Markers.scan_append hm (hcopy.append (hcalled _ _)),
    Markers.scan_entry hm, Markers.scan_append hm hterm]
  rfl

theorem checks_processed (hm : c.markers.Fits) {last : Entry} (hl : d.block.lastApp? = some last)
    (hn : Numbered ⟨c.processed d.nextId d.block, d.nextId + d.block.length + 7⟩) :
    c.Checks d last (Markers.layout d.nextId d.block)
      ⟨c.processed d.nextId d.block, d.nextId + d.block.length + 7⟩ := by
  have hterm := Block.terminator?_of_lastApp? hl
  have hcopy := Block.app_body (Block.nodup_renumber d.nextId d.block)
  constructor
  · refine ⟨d.nextId + d.block.length + 3, d.nextId + d.block.length + 4,
      d.nextId + d.block.length + 5, d.nextId + d.block.length + 6,
      (d.block.renumber d.nextId).body.app, (d.block.renumber d.nextId).terminator?.toList,
      ?_, ?_, ?_, ?_⟩
    · rw [← Block.body_of_lastApp? hl]
      simp [processed, Markers.layout]
    · rw [← hcopy]
      exact Block.map_app_renumber (fun _ _ => rfl) _ _
    · have hlength := congrArg List.length (Block.map_terminator?_renumber
        (f := Entry.isTerminator) (fun _ _ => rfl) d.nextId d.block)
      rw [List.length_map, List.length_map, hterm] at hlength
      rw [hlength]
      by_cases h : last.isTerminator <;> simp [h]
    · intro e he
      rw [← hcopy] at he
      exact (Block.mem_renumber (Block.mem_app.1 he).1).1
  · exact hn
  · exact Block.isSome_terminator?_of_lastApp? hl
  · exact scan_processed hm d.nextId

/-- What becomes of a block, in full. The message about lost markers is never written. -/
theorem processBlock_shape (hc : c.Registered) (hd : d.Numbered) :
    (∀ pre e post f, d.block.app = pre ++ e :: post → (∀ x ∈ pre, x.sideEffect? = none) →
      e.sideEffect? = some f →
      (c.processBlock d).result = .ok (.sideEffect e.id f) ∧ (c.processBlock d).state = d)
    ∧ ((∀ e ∈ d.block.app, e.sideEffect? = none) → d.block.app = [] →
      (c.processBlock d).result = .ok .empty ∧ (c.processBlock d).state = d)
    ∧ ((∀ e ∈ d.block.app, e.sideEffect? = none) → ∀ last, d.block.lastApp? = some last →
      ∃ l, (c.processBlock d).result = .ok (.checked l)
        ∧ c.Checks d last l (c.processBlock d).state)
    ∧ .message ⟨.error, .checker, "duplicated block lost its markers; protocol not installed"⟩
      ∉ (c.processBlock d).journal := by
  have hm := hc.fits
  refine ⟨?_, ?_, ?_, ?_⟩
  · intro pre e post f happ hpre he
    rw [processBlock_sideEffect (Block.eligibility_of_app_eq happ hpre he)]
    exact ⟨rfl, rfl⟩
  · intro hnone happ
    rw [processBlock_empty (Block.eligibility_eq_eligible_iff.2 hnone) happ]
    exact ⟨rfl, rfl⟩
  · intro hnone last hl
    obtain ⟨hp, hn⟩ := processBlock_checked hm hd (Block.eligibility_eq_eligible_iff.2 hnone)
      (Block.app_ne_nil_of_lastApp? hl)
    rw [hp]
    exact ⟨_, rfl, checks_processed hm hl hn⟩
  · cases h : d.block.eligibility with
    | sideEffect id f =>
      rw [processBlock_sideEffect h]
      simp
    | eligible =>
      by_cases happ : d.block.app = []
      · rw [processBlock_empty h happ]
        simp
      · rw [(processBlock_checked hm hd h happ).1]
        simp

end Checker

namespace Draft

/-- A block with two instructions of the program, one of a tool and a call in between. -/
def mixed : Draft where
  block := [⟨0, .machine (.increment 0), true, none⟩, ⟨1, .machine (.increment 11), false, none⟩,
    ⟨2, .call (.poke [10, 7]), false, none⟩, ⟨3, .machine .ret, true, none⟩]
  nextId := 4

theorem numbered_mixed : mixed.Numbered := by decide

end Draft

theorem Checker.processBlock_shape_mixed :
    Checker.first.Registered ∧ Draft.mixed.Numbered
      ∧ ∃ l, (first.processBlock .mixed).result = .ok (.checked l)
        ∧ first.Checks .mixed ⟨3, .machine .ret, true, none⟩ l (first.processBlock .mixed).state :=
  ⟨registered_first, Draft.numbered_mixed,
    (processBlock_shape registered_first Draft.numbered_mixed).2.2.1
      (Block.eligibility_eq_eligible_iff.1 rfl) _ rfl⟩

end Rerun
