import Rerun.Protocol
import Rerun.Proofs.Edits

/-!
# Doubled blocks

The body of a block is what it holds besides its terminator, and its program is the program of the
body and then the terminator (`app_body`). Doubling copies all of the block, `Block.renumber`, and
puts the body between the first two markers and the program of the copied body between the last two;
the copied terminator comes last (`double_apply`).

Calls go in front of the markers of any numbered block that holds them in order
(`install_apply`).
-/

namespace Rerun

namespace Block

variable {a b : Block} {x : Entry}

/-! ## The body and the terminator -/

/-- The last entry of the program, if it hands control on. -/
def terminator? (b : Block) : Option Entry := b.lastApp?.filter (·.isTerminator)

/-- A block without its terminator. -/
def body (b : Block) : Block :=
  match b.terminator? with
  | some e => b.filter fun y => y.id ≠ e.id
  | none => b

theorem terminator?_eq_some_iff :
    b.terminator? = some x
      ↔ x.isApp ∧ x.isTerminator ∧ ∃ a m, b = a ++ x :: m ∧ app m = [] := by
  rw [terminator?, Option.filter_eq_some_iff, lastApp?_eq_some_iff]
  constructor
  · rintro ⟨⟨hx, ha⟩, ht⟩
    exact ⟨hx, ht, ha⟩
  · rintro ⟨hx, ht, ha⟩
    exact ⟨⟨hx, ha⟩, ht⟩

/-- No other entry has the identity of `x`. -/
theorem ne_of_nodup {m : Block} (hn : ((a ++ x :: m).map (·.id)).Nodup) :
    ∀ y ∈ a ++ m, y.id ≠ x.id := by
  simp only [List.map_append, List.map_cons, List.nodup_append, List.nodup_cons, List.mem_cons,
    List.mem_map] at hn
  intro y hy heq
  rcases List.mem_append.1 hy with hy | hy
  · exact hn.2.2 y.id ⟨y, hy, rfl⟩ x.id (.inl rfl) heq
  · exact hn.2.1.1 ⟨y, hy, heq⟩

theorem terminator?_of_lastApp? (h : b.lastApp? = some x) :
    b.terminator? = if x.isTerminator then some x else none := by
  rw [terminator?, h]
  by_cases hx : x.isTerminator <;> simp [hx]

theorem isSome_terminator?_of_lastApp? (h : b.lastApp? = some x) :
    b.terminator?.isSome = x.isTerminator := by
  rw [terminator?_of_lastApp? h]
  by_cases hx : x.isTerminator <;> simp [hx]

theorem terminator?_eq_none_iff :
    b.terminator? = none ↔ ∀ x, b.app.getLast? = some x → ¬x.isTerminator := by
  rw [terminator?, lastApp?_eq_getLast?, Option.filter_eq_none_iff]

theorem body_of_lastApp? (h : b.lastApp? = some x) :
    b.body = if x.isTerminator then b.filter fun e => e.id ≠ x.id else b := by
  rw [body, terminator?_of_lastApp? h]
  by_cases hx : x.isTerminator <;> simp [hx]

theorem toList_terminator?_subset (b : Block) : b.terminator?.toList ⊆ b := by
  intro x hx
  obtain ⟨-, -, a, m, rfl, -⟩ := terminator?_eq_some_iff.1 (Option.mem_toList.1 hx)
  simp

theorem body_of_terminator?_eq_none (h : b.terminator? = none) : b.body = b := by
  rw [body, h]

/-- Taking the terminator out leaves what stands in front of it and behind it. -/
theorem body_append {m : Block} (hn : ((a ++ x :: m).map (·.id)).Nodup)
    (h : (a ++ x :: m).terminator? = some x) : body (a ++ x :: m) = a ++ m := by
  rw [body, h]
  simp only [List.filter_append, ne_eq, not_true_eq_false, decide_false, Bool.false_eq_true,
    not_false_eq_true, List.filter_cons_of_neg]
  rw [← List.filter_append, List.filter_eq_self]
  intro y hy
  simpa using ne_of_nodup hn y hy

/-- Behind the terminator there are only entries of tools. -/
theorem app_eq_nil_of_terminator? {m : Block} (hn : ((a ++ x :: m).map (·.id)).Nodup)
    (h : (a ++ x :: m).terminator? = some x) : app m = [] := by
  have hx : x.isApp := (terminator?_eq_some_iff.1 h).1
  rw [terminator?, Option.filter_eq_some_iff, lastApp?_eq_getLast?, app_append,
    app_cons_of_isApp hx, List.getLast?_append, List.getLast?_cons, Option.some_or] at h
  rcases hm : (app m).getLast? with _ | y
  · exact List.getLast?_eq_none_iff.1 hm
  · rw [hm, Option.getD_some] at h
    have hmem : x ∈ m := (List.mem_filter.1 (List.mem_of_getLast? (hm.trans h.1))).1
    exact absurd rfl (ne_of_nodup hn x (List.mem_append_right _ hmem))

theorem body_sublist (b : Block) : b.body.Sublist b := by
  rw [body]
  split
  · exact List.filter_sublist
  · exact List.Sublist.refl _

/-- The program of a block is the program of its body and then its terminator. -/
theorem app_body (hn : (b.map (·.id)).Nodup) : b.app = b.body.app ++ b.terminator?.toList := by
  rcases ht : b.terminator? with _ | x
  · rw [body_of_terminator?_eq_none ht]
    simp
  · obtain ⟨hx, -, a, m, rfl, hm⟩ := terminator?_eq_some_iff.1 ht
    rw [body_append hn ht, app_append, app_append, app_cons_of_isApp hx, hm, List.append_nil]
    rfl

/-! ## The copy of a block -/

section Copy

variable {β : Type} {f : Entry → β} (hf : ∀ e n, f { e with id := n } = f e) (n : EntryId)

include hf

/-- The terminator of a copied block is the copy of the terminator. -/
theorem map_terminator?_renumber (b : Block) :
    (b.renumber n).terminator?.toList.map f = b.terminator?.toList.map f := by
  have hlast := map_lastApp?_renumber (f := fun e => (f e, e.isTerminator))
    (fun e m => congrArg (·, e.isTerminator) (hf e m)) n b
  rcases hb : b.lastApp? with _ | x
  · rw [hb, Option.map_none, Option.map_eq_none_iff] at hlast
    rw [terminator?, terminator?, hlast, hb]
  · rw [hb, Option.map_some, Option.map_eq_some_iff] at hlast
    obtain ⟨y, hy, hyx⟩ := hlast
    obtain ⟨hsame, hterm⟩ := Prod.mk.inj hyx
    rw [terminator?_of_lastApp? hy, terminator?_of_lastApp? hb, hterm]
    split <;> simp [hsame]

/-- The program of the copied body is that of the body, up to the identities. -/
theorem map_app_body_renumber (hn : (b.map (·.id)).Nodup) :
    (b.renumber n).body.app.map f = b.body.app.map f := by
  have hprogram := map_app_renumber hf n b
  have hterm := map_terminator?_renumber hf n b
  rw [app_body (nodup_renumber n b), app_body hn, List.map_append, List.map_append, hterm]
    at hprogram
  exact List.append_cancel_right hprogram

end Copy

/-! ## Marking -/

/-- A block that ends in `l` is marked in front, and before or behind `l`. -/
theorem mark_around {c : Block} {l p e : Entry} (hn : ((p :: (c ++ [l])).map (·.id)).Nodup)
    (hl : l.isApp) :
    (∃ f, (c ++ [l]).head? = some f
        ∧ insertBefore f.id p (c ++ [l]) = some (p :: (c ++ [l])))
      ∧ lastApp? (p :: (c ++ [l])) = some l
      ∧ insertBefore l.id e (p :: (c ++ [l])) = some (p :: (c ++ [e, l]))
      ∧ insertAfter l.id e (p :: (c ++ [l])) = some (p :: (c ++ [l, e])) := by
  have hd : ∀ y ∈ p :: c, y.id ≠ l.id := by
    rw [← List.cons_append, List.map_append, List.nodup_append] at hn
    intro y hy
    exact hn.2.2 y.id (List.mem_map_of_mem hy) l.id (by simp)
  refine ⟨?_, ?_, ?_, ?_⟩
  · rcases c with _ | ⟨f, rest⟩
    · exact ⟨l, rfl, by simp only [List.nil_append, insertBefore, ↓reduceIte]⟩
    · exact ⟨f, rfl, by simp only [List.cons_append, insertBefore, ↓reduceIte]⟩
  · rw [lastApp?_eq_some_iff]
    exact ⟨hl, p :: c, [], rfl, rfl⟩
  · simpa only [List.cons_append] using insertBefore_append hd e []
  · simpa only [List.cons_append] using insertAfter_append hd e []

/-- A program is marked in front, and before its terminator or behind all of it. -/
theorem mark_app {l p : Entry} (hn : (b.map (·.id)).Nodup) (hp : ∀ y ∈ b, y.id ≠ p.id)
    (hl : b.lastApp? = some l) (e : Entry) :
    (∃ f, b.app.head? = some f ∧ insertBefore f.id p b.app = some (p :: b.app))
      ∧ lastApp? (p :: b.app) = some l
      ∧ (if l.isTerminator then insertBefore l.id else insertAfter l.id) e (p :: b.app)
        = some (p :: (b.body.app ++ e :: b.terminator?.toList)) := by
  obtain ⟨hla, a, t, hb, ht⟩ := lastApp?_eq_some_iff.1 hl
  have happ : b.app = a.app ++ [l] := by
    rw [hb, app_append, app_cons_of_isApp hla, ht]
  have hids : ((p :: b.app).map (·.id)).Nodup := by
    rw [List.map_cons, List.nodup_cons]
    refine ⟨?_, hn.sublist (List.filter_sublist.map _)⟩
    rintro hmem
    obtain ⟨y, hy, hid⟩ := List.mem_map.1 hmem
    exact hp y (mem_app.1 hy).1 hid
  have hsplit := app_body hn
  rw [happ, terminator?_of_lastApp? hl] at hsplit
  rw [happ] at hids ⊢
  obtain ⟨hfirst, hlast, hbefore, hafter⟩ := mark_around (e := e) hids hla
  refine ⟨hfirst, hlast, ?_⟩
  rw [terminator?_of_lastApp? hl]
  by_cases hlt : l.isTerminator
  · simp only [hlt, if_true, Option.toList_some] at hsplit ⊢
    rw [hbefore, List.append_cancel_right hsplit]
  · simp only [hlt, Bool.false_eq_true, if_false, Option.toList_none, List.append_nil] at hsplit ⊢
    rw [hafter, ← hsplit, List.append_assoc]
    rfl

end Block

namespace Draft

variable {d : Draft} {a b : Block} {x : Entry} {n : EntryId}

/-- A call as an entry. -/
def called (c : Call) (n : EntryId) : Entry := ⟨n, .call c, false, none⟩

/-- Puts calls in front of entries, one call after the other, as long as the entries are in the
block. -/
def insertCalls : List (EntryId × Call) → Action Draft Bool
  | [] => pure true
  | (target, c) :: rest => do
    let some _ ← insertCall target c | return false
    insertCalls rest

/-- Numbered entries stay so with a new one somewhere in between. -/
theorem Numbered.insert (hd : Numbered ⟨a ++ b, n⟩) (hx : x.id = n) :
    Numbered ⟨a ++ x :: b, n + 1⟩ := by
  have hfresh : n ∉ (a ++ b).map (·.id) := by
    intro h
    obtain ⟨e, he, rfl⟩ := List.mem_map.1 h
    exact Nat.lt_irrefl _ (hd.old e he)
  have hperm : (a ++ x :: b).Perm (x :: (a ++ b)) := List.perm_middle
  constructor
  · refine ((hperm.map (·.id)).nodup_iff).2 ?_
    rw [List.map_cons, List.nodup_cons, hx]
    exact ⟨hfresh, hd.nodup⟩
  · intro e he
    rcases List.mem_cons.1 (hperm.mem_iff.1 he) with rfl | he
    · rw [hx]
      exact Nat.lt_succ_self n
    · exact Nat.lt_succ_of_lt (hd.old e he)

/-- Entries of a numbered draft and the copies of its program all have identities of their own. -/
theorem Numbered.copied (hd : d.Numbered) (ha : a.Sublist d.block) :
    Numbered ⟨a ++ (d.block.renumber d.nextId).app, d.nextId + d.block.length⟩ := by
  have hcopy : (d.block.renumber d.nextId).app.Sublist (d.block.renumber d.nextId) :=
    List.filter_sublist
  constructor
  · rw [List.map_append, List.nodup_append]
    refine ⟨hd.nodup.sublist (ha.map _), (Block.nodup_renumber _ _).sublist (hcopy.map _), ?_⟩
    intro i hi j hj
    obtain ⟨e, he, rfl⟩ := List.mem_map.1 hi
    obtain ⟨e', he', rfl⟩ := List.mem_map.1 hj
    exact Nat.ne_of_lt (Nat.lt_of_lt_of_le (hd.old e (ha.subset he))
      (Block.mem_renumber (hcopy.subset he')).1)
  · intro e he
    rcases List.mem_append.1 he with he | he
    · exact Nat.lt_add_right _ (hd.old e (ha.subset he))
    · exact (Block.mem_renumber (hcopy.subset he)).2

/-- In a numbered block a call goes right in front of its target. -/
theorem insertCall_append {b₀ b₁ : Block} (c : Call) (hd : Numbered ⟨b₀, n⟩)
    (hb₀ : b₀ = a ++ x :: b) (hb₁ : b₁ = a ++ called c n :: x :: b) :
    insertCall x.id c ⟨b₀, n⟩ = ⟨.ok (some n), ⟨b₁, n + 1⟩, []⟩ ∧ Numbered ⟨b₁, n + 1⟩ := by
  subst hb₀ hb₁
  refine ⟨?_, hd.insert rfl⟩
  exact insertCall_apply (Block.insertBefore_append
    (fun y hy => Block.ne_of_nodup hd.nodup y (List.mem_append_left _ hy)) _ _)

end Draft

namespace Layout

open Rerun.Action Draft

variable {l : Layout} {a b c e : Block} {x y z : Entry} {n : EntryId}

/-- The calls, in the order in which they are put in, and the markers they go in front of. -/
def calls (l : Layout) (k : Nat) (arch : Arch) : List (EntryId × Call) :=
  [(l.instrumented, .save k false), (l.plain, .save k true), (l.plain, .restore k),
    (l.terminator, .compare k arch)]

theorem install_eq (l : Layout) (k : Nat) (arch : Arch) : l.install k arch = do
    if l.markers.all (← get).block.has then insertCalls (l.calls k arch) else return false := rfl

/-- In a numbered block that holds the markers in their order, each call goes in front of its
marker. -/
theorem install_apply (k : Nat) (arch : Arch) (hx : l.instrumented = x.id) (hy : l.plain = y.id)
    (hz : l.terminator = z.id) (hd : Numbered ⟨a ++ x :: (b ++ y :: (c ++ z :: e)), n⟩) :
    l.install k arch ⟨a ++ x :: (b ++ y :: (c ++ z :: e)), n⟩
      = ⟨.ok true, ⟨a ++ called (.save k false) n :: x
          :: (b ++ called (.save k true) (n + 1) :: called (.restore k) (n + 2) :: y
            :: (c ++ called (.compare k arch) (n + 3) :: z :: e)), n + 4⟩, []⟩
    ∧ Numbered ⟨a ++ called (.save k false) n :: x
          :: (b ++ called (.save k true) (n + 1) :: called (.restore k) (n + 2) :: y
            :: (c ++ called (.compare k arch) (n + 3) :: z :: e)), n + 4⟩ := by
  obtain ⟨h₀, hd₀⟩ := insertCall_append (.save k false) hd rfl rfl
  obtain ⟨h₁, hd₁⟩ := insertCall_append (x := y) (.save k true) hd₀
    (a := a ++ called (.save k false) n :: x :: b) (b := c ++ z :: e) (by simp) rfl
  obtain ⟨h₂, hd₂⟩ := insertCall_append (x := y) (.restore k) hd₁
    (a := a ++ called (.save k false) n :: x :: b ++ [called (.save k true) (n + 1)])
    (b := c ++ z :: e) (by simp) rfl
  obtain ⟨h₃, hd₃⟩ := insertCall_append (x := z) (.compare k arch) hd₂
    (a := a ++ called (.save k false) n :: x
      :: (b ++ called (.save k true) (n + 1) :: called (.restore k) (n + 2) :: y :: c))
    (b := e) (by simp) rfl
  refine ⟨?_, by simpa using hd₃⟩
  have hall : l.markers.all (Block.has (a ++ x :: (b ++ y :: (c ++ z :: e)))) := by
    simp [markers, Block.has, hx, hy, hz]
  rw [install]
  refine bind_quiet_eq (get_apply _) ?_
  rw [if_pos hall, hx, hy, hz]
  refine bind_quiet_eq h₀ ?_
  refine bind_quiet_eq h₁ ?_
  refine bind_quiet_eq h₂ ?_
  refine bind_quiet_eq h₃ ?_
  simp [pure_apply]

end Layout

namespace Markers

open Rerun.Action

variable {m : Markers} {d : Draft}

/-- The copy of a program with its two markers. The block has been copied under the identities from
`n` on, the markers come after them. -/
def marked (m : Markers) (n : EntryId) (b : Block) : Block :=
  m.entry .plain (n + b.length + 1) :: ((b.renumber n).body.app
    ++ m.entry .terminator (n + b.length + 2) :: (b.renumber n).terminator?.toList)

/-- A block and the copy of its program, with all three markers. -/
def doubled (m : Markers) (n : EntryId) (b : Block) : Block :=
  m.entry .instrumented (n + b.length) :: b.body ++ m.marked n b

/-- Where the markers of `doubled` are. -/
def layout (n : EntryId) (b : Block) : Layout :=
  ⟨n + b.length, n + b.length + 1, n + b.length + 2, b.terminator?.isSome⟩

/-- What is said about a block that has been doubled. -/
def doubledText (m : Markers) (n : EntryId) (b : Block) : String :=
  "duplicated block: " ++ toString (m.doubled n b).length ++ " instructions, terminator "
    ++ if b.terminator?.isSome then "relocated" else "none"

/-- The copy of a program is marked in front, and where the terminator stands or would stand. -/
theorem mark_program (m : Markers) (n : EntryId) {b : Block} {l : Entry}
    (hl : b.lastApp? = some l) :
    ∃ first last, (b.renumber n).app.head? = some first
      ∧ Block.insertBefore first.id (m.entry .plain (n + b.length + 1)) (b.renumber n).app
        = some (m.entry .plain (n + b.length + 1) :: (b.renumber n).app)
      ∧ Block.lastApp? (m.entry .plain (n + b.length + 1) :: (b.renumber n).app) = some last
      ∧ last.isTerminator = l.isTerminator
      ∧ (if l.isTerminator then Block.insertBefore last.id else Block.insertAfter last.id)
          (m.entry .terminator (n + b.length + 2))
          (m.entry .plain (n + b.length + 1) :: (b.renumber n).app)
        = some (m.marked n b) := by
  have hlast : (b.renumber n).lastApp?.map (·.isTerminator) = some l.isTerminator := by
    rw [Block.map_lastApp?_renumber fun _ _ => rfl, hl]
    rfl
  obtain ⟨last, hcopy, hterm⟩ := Option.map_eq_some_iff.1 hlast
  have hfresh : ∀ y ∈ b.renumber n, y.id ≠ (m.entry .plain (n + b.length + 1)).id := fun y hy =>
    Nat.ne_of_lt (Nat.lt_succ_of_lt (Block.mem_renumber hy).2)
  obtain ⟨⟨first, hf, hfirst⟩, hl', hmarked⟩ := Block.mark_app (Block.nodup_renumber n b) hfresh
    hcopy (m.entry .terminator (n + b.length + 2))
  rw [hterm] at hmarked
  exact ⟨first, last, hf, hfirst, hl', hterm, hmarked⟩

/-- Taking the terminator out of a block that has its first marker leaves the body. -/
theorem remove_terminator {x : Entry} (hd : d.Numbered) (hx : d.block.terminator? = some x) :
    Block.remove x.id (m.entry .instrumented (d.nextId + d.block.length) :: d.block)
      = some (x, m.entry .instrumented (d.nextId + d.block.length) :: d.block.body) := by
  obtain ⟨-, -, a, t, hb, -⟩ := Block.terminator?_eq_some_iff.1 hx
  have hold : x.id < d.nextId := hd.old x (by simp [hb])
  have hbody : d.block.body = a ++ t := by
    rw [hb] at hx ⊢
    exact Block.body_append (hb ▸ hd.nodup) hx
  have hne : ∀ y ∈ m.entry .instrumented (d.nextId + d.block.length) :: a, y.id ≠ x.id := by
    rintro y (_ | ⟨_, hy⟩)
    · exact Nat.ne_of_gt (Nat.lt_add_right _ hold)
    · exact Block.ne_of_nodup (hb ▸ hd.nodup) y (List.mem_append_left _ hy)
  rw [hbody, ← List.cons_append, ← Block.remove_append hne t, List.cons_append, ← hb]

/-- A block is doubled even if its entries share identities. `b` is what is left of it once an entry
with the identity of the terminator is out. -/
theorem double_eq {b : Block} {last : Entry} (hm : m.Fits) (hlast : d.block.lastApp? = some last)
    (hb : if last.isTerminator then
        ∃ x, Block.remove last.id (m.entry .instrumented (d.nextId + d.block.length) :: d.block)
          = some (x, m.entry .instrumented (d.nextId + d.block.length) :: b)
      else b = d.block) :
    m.double d = ⟨.ok (some (layout d.nextId d.block)),
      ⟨m.entry .instrumented (d.nextId + d.block.length) :: b ++ m.marked d.nextId d.block,
        d.nextId + d.block.length + 3⟩,
      [.message ⟨.trace, .doubling, "duplicated block: "
        ++ toString (m.entry .instrumented (d.nextId + d.block.length) :: b
          ++ m.marked d.nextId d.block).length
        ++ " instructions, terminator "
        ++ if d.block.terminator?.isSome then "relocated" else "none"⟩]⟩ := by
  obtain ⟨first, hfirst⟩ := Block.exists_head? (Block.app_ne_nil_of_lastApp? hlast)
  obtain ⟨f, l, hf, hp, hl, hlt, hcopy⟩ := mark_program m d.nextId hlast
  have hrel := Block.isSome_terminator?_of_lastApp? hlast
  rw [double]
  refine bind_quiet_eq (Draft.get_apply d) ?_
  simp only [hfirst, hlast]
  refine bind_quiet_eq (Draft.duplicateAll_apply _ _) ?_
  refine bind_quiet_eq (insert_apply (d := ⟨d.block, d.nextId + d.block.length⟩) hm _ hfirst) ?_
  simp only [hf]
  refine bind_quiet_eq (marker_apply hm _ _) ?_
  simp only [hp, hl]
  refine bind_quiet_eq (marker_apply hm _ _) ?_
  unfold layout
  simp only [hlt, hrel] at hcopy ⊢
  by_cases hterm : last.isTerminator
  · simp only [hterm, if_true] at hb hcopy ⊢
    obtain ⟨x, hx⟩ := hb
    simp only [hcopy]
    refine bind_quiet_eq (Draft.remove_apply hx) ?_
    refine bind_quiet_eq (Draft.append_apply _ _) ?_
    refine bind_quiet_eq (Draft.get_apply _) ?_
    exact bind_said_eq rfl
  · simp only [hterm, if_false, Bool.false_eq_true] at hb hcopy ⊢
    subst hb
    simp only [hcopy]
    refine bind_quiet_eq (Draft.append_apply _ _) ?_
    refine bind_quiet_eq (Draft.get_apply _) ?_
    exact bind_said_eq rfl

theorem double_apply (hm : m.Fits) (hd : d.Numbered) (happ : d.block.app ≠ []) :
    m.double d = ⟨.ok (some (layout d.nextId d.block)),
      ⟨m.doubled d.nextId d.block, d.nextId + d.block.length + 3⟩,
      [.message ⟨.trace, .doubling, m.doubledText d.nextId d.block⟩]⟩ := by
  obtain ⟨last, hlast⟩ := Block.exists_lastApp? happ
  have hterm := Block.terminator?_of_lastApp? hlast
  refine double_eq (b := d.block.body) hm hlast ?_
  split
  · next h => exact ⟨last, remove_terminator hd (hterm.trans (if_pos h))⟩
  · next h => exact Block.body_of_terminator?_eq_none (hterm.trans (if_neg h))

/-- Old identities, those of the copies and those of the markers are all different. -/
theorem numbered_doubled (hd : d.Numbered) :
    Draft.Numbered ⟨m.doubled d.nextId d.block, d.nextId + d.block.length + 3⟩ := by
  have hcopied := hd.copied d.block.body_sublist
  rw [Block.app_body (Block.nodup_renumber _ _)] at hcopied
  -- the markers come in one after the other, each under the next identity
  have h₀ := hcopied.insert (a := []) (x := m.entry .instrumented (d.nextId + d.block.length)) rfl
  have h₁ := Draft.Numbered.insert (x := m.entry .plain (d.nextId + d.block.length + 1))
    (a := m.entry .instrumented (d.nextId + d.block.length) :: d.block.body) h₀ rfl
  have h₂ := Draft.Numbered.insert (x := m.entry .terminator (d.nextId + d.block.length + 2))
    (a := m.entry .instrumented (d.nextId + d.block.length) :: d.block.body
      ++ m.entry .plain (d.nextId + d.block.length + 1) :: (d.block.renumber d.nextId).body.app)
    (b := (d.block.renumber d.nextId).terminator?.toList) (n := d.nextId + d.block.length + 2)
    (by simpa using h₁) rfl
  simpa [doubled, marked] using h₂

end Markers

end Rerun
