import Mathlib.Data.List.Nodup
import Mathlib.Data.List.Perm.Basic
import Rerun.Proofs.Doubled

/-!
# Where calls go

Calls are put in front of entries one after the other, each into the block that the ones before have
left. It comes out as if all had been put in at once, in front of each entry those for it, wherever
the entries stand (`insertCalls_apply`). Of the calls of a checked block either all are put in or
none, and taking them out again gives the block as it was (`install_places_calls`).
-/

namespace Rerun

open Rerun.Action Draft

variable {l : Layout} {d : Draft} {a b c : Block} {x e : Entry} {n target : EntryId} {f : Call}
  {cs : List (EntryId × Call)}

namespace Block

/-- The calls for the entry `target`, of calls that take the identities from `n` on. -/
def callsFor (target : EntryId) : List (EntryId × Call) → EntryId → Block
  | [], _ => []
  | (t, f) :: rest, n => (if t = target then [called f n] else []) ++ callsFor target rest (n + 1)

/-- A block with calls in front of the entries they are for. -/
def withCalls (cs : List (EntryId × Call)) (n : EntryId) (b : Block) : Block :=
  b.flatMap fun x => callsFor x.id cs n ++ [x]

/-- Calls as entries, under the identities from `n` on. -/
def allCalled : List (EntryId × Call) → EntryId → Block
  | [], _ => []
  | (_, f) :: rest, n => called f n :: allCalled rest (n + 1)

theorem callsFor_eq_nil (h : ∀ p ∈ cs, p.1 ≠ target) (n : EntryId) : callsFor target cs n = [] := by
  induction cs generalizing n with
  | nil => rfl
  | cons p rest ih =>
    rw [callsFor, if_neg (h p List.mem_cons_self), List.nil_append,
      ih fun q hq => h q (List.mem_cons_of_mem _ hq)]

theorem le_of_mem_callsFor (he : e ∈ callsFor target cs n) : n ≤ e.id := by
  induction cs generalizing n with
  | nil => cases he
  | cons p rest ih =>
    rcases List.mem_append.1 he with he | he
    · split at he
      · cases List.mem_singleton.1 he
        exact Nat.le_refl n
      · cases he
    · exact Nat.le_of_succ_le (ih he)

theorem withCalls_eq_self (h : ∀ p ∈ cs, ∀ x ∈ b, p.1 ≠ x.id) (n : EntryId) :
    withCalls cs n b = b := by
  have hnil : ∀ x ∈ b, callsFor x.id cs n ++ [x] = [x] := fun x hx => by
    rw [callsFor_eq_nil (fun p hp => h p hp x hx), List.nil_append]
  rw [withCalls, List.flatMap_congr hnil, List.flatMap_singleton']

theorem withCalls_append (cs : List (EntryId × Call)) (n : EntryId) (a b : Block) :
    withCalls cs n (a ++ b) = withCalls cs n a ++ withCalls cs n b := List.flatMap_append

/-- One call goes right in front of its entry. -/
theorem withCalls_singleton (hn : ((a ++ x :: c).map (·.id)).Nodup) (f : Call) (n : EntryId) :
    withCalls [(x.id, f)] n (a ++ x :: c) = a ++ called f n :: x :: c := by
  have hne := ne_of_nodup hn
  have hself : ∀ b : Block, b ⊆ a ++ c → withCalls [(x.id, f)] n b = b := fun b hb =>
    withCalls_eq_self (fun p hp y hy => by
      cases List.mem_singleton.1 hp
      exact (hne y (hb hy)).symm) n
  have hx : withCalls [(x.id, f)] n [x] = [called f n, x] := by simp [withCalls, callsFor]
  rw [List.append_cons, withCalls_append, withCalls_append, hself a (by simp), hx,
    hself c (by simp), List.append_assoc]
  rfl

/-- Calls may be put in one by one, if none of them is for the first one. -/
theorem withCalls_withCalls (h : ∀ p ∈ cs, p.1 ≠ n) (b : Block) :
    withCalls cs (n + 1) (withCalls [(target, f)] n b) = withCalls ((target, f) :: cs) n b := by
  rw [withCalls, withCalls, withCalls, List.flatMap_assoc]
  refine List.flatMap_congr fun x _ => ?_
  by_cases hx : target = x.id
  · have hcalled : callsFor (called f n).id cs (n + 1) = [] := callsFor_eq_nil h _
    simp [callsFor, hx, hcalled]
  · simp [callsFor, hx]

/-- The entries that were there before are told by their identities. -/
theorem filter_withCalls (hb : ∀ x ∈ b, x.id < n) (cs : List (EntryId × Call)) :
    (withCalls cs n b).filter (·.id < n) = b := by
  have hx : ∀ x ∈ b, (callsFor x.id cs n ++ [x]).filter (·.id < n) = [x] := by
    intro x hx
    have hnew : (callsFor x.id cs n).filter (·.id < n) = [] := by
      refine List.filter_eq_nil_iff.2 fun e he => ?_
      simpa using le_of_mem_callsFor he
    rw [List.filter_append, hnew, List.nil_append, List.filter_cons_of_pos (by simpa using hb x hx),
      List.filter_nil]
  rw [withCalls, List.filter_flatMap, List.flatMap_congr hx, List.flatMap_singleton']

theorem flatMap_called (hn : (b.map (·.id)).Nodup) (hx : ∃ x ∈ b, x.id = target) (e : Entry) :
    (b.flatMap fun x => if target = x.id then [e] else []) = [e] := by
  obtain ⟨x, hx, rfl⟩ := hx
  obtain ⟨a, c, rfl⟩ := List.append_of_mem hx
  have hne := ne_of_nodup hn
  have hnil : ∀ b : Block, b ⊆ a ++ c → (b.flatMap fun y => if x.id = y.id then [e] else []) = [] :=
    fun b hb => List.flatMap_eq_nil_iff.2 fun y hy => if_neg (hne y (hb hy)).symm
  rw [List.flatMap_append, List.flatMap_cons, if_pos rfl, hnil a (by simp), hnil c (by simp)]
  rfl

/-- Every call is put in once, and nothing else is. -/
theorem perm_withCalls (hn : (b.map (·.id)).Nodup) (h : ∀ p ∈ cs, ∃ x ∈ b, x.id = p.1)
    (n : EntryId) : (withCalls cs n b).Perm (allCalled cs n ++ b) := by
  induction cs generalizing n with
  | nil => rw [withCalls_eq_self (by simp)]; rfl
  | cons p rest ih =>
    have hrest := ih (fun q hq => h q (List.mem_cons_of_mem _ hq)) (n + 1)
    have hsplit := List.flatMap_append_perm b
      (fun x => if p.1 = x.id then [called p.2 n] else [])
      (fun x => callsFor x.id rest (n + 1) ++ [x])
    rw [flatMap_called hn (h p List.mem_cons_self)] at hsplit
    simp only [withCalls, callsFor, List.append_assoc]
    exact hsplit.symm.trans (hrest.cons _)

end Block

namespace Draft

open Block

theorem insertCall_withCalls (hd : Numbered ⟨b, n⟩) (hx : ∃ x ∈ b, x.id = target) (f : Call) :
    insertCall target f ⟨b, n⟩ = ⟨.ok (some n), ⟨withCalls [(target, f)] n b, n + 1⟩, []⟩
      ∧ Numbered ⟨withCalls [(target, f)] n b, n + 1⟩ := by
  obtain ⟨x, hx, rfl⟩ := hx
  obtain ⟨a, c, rfl⟩ := List.append_of_mem hx
  exact insertCall_append f hd rfl (withCalls_singleton hd.nodup f n)

/-- Calls put in one by one are as if put in at once. -/
theorem insertCalls_apply (hd : Numbered ⟨b, n⟩) (h : ∀ p ∈ cs, ∃ x ∈ b, x.id = p.1) :
    insertCalls cs ⟨b, n⟩ = ⟨.ok true, ⟨withCalls cs n b, n + cs.length⟩, []⟩
      ∧ Numbered ⟨withCalls cs n b, n + cs.length⟩ := by
  induction cs generalizing b n with
  | nil =>
    rw [withCalls_eq_self (by simp)]
    exact ⟨rfl, hd⟩
  | cons p rest ih =>
    obtain ⟨t, f⟩ := p
    obtain ⟨happly, hd₁⟩ := insertCall_withCalls hd (h _ List.mem_cons_self) f
    have hold : ∀ x ∈ b, x ∈ withCalls [(t, f)] n b := fun x hx =>
      List.mem_flatMap.2 ⟨x, hx, by simp⟩
    obtain ⟨hrest, hd₂⟩ := ih hd₁ fun p hp =>
      (h p (List.mem_cons_of_mem _ hp)).imp fun x hx => ⟨hold x hx.1, hx.2⟩
    -- the new call has an identity that no entry had, so that no further call is for it
    have hnew : ∀ p ∈ rest, p.1 ≠ n := fun p hp heq => by
      obtain ⟨x, hx, hid⟩ := h p (List.mem_cons_of_mem _ hp)
      exact Nat.lt_irrefl n ((hid.trans heq) ▸ hd.old x hx)
    rw [withCalls_withCalls hnew, Nat.add_right_comm, Nat.add_assoc] at hrest hd₂
    exact ⟨bind_quiet_eq happly hrest, hd₂⟩

end Draft

namespace Layout

open Block

/-- The calls in front of an entry of a block that checks itself. -/
def callsBefore (l : Layout) (k : Nat) (arch : Arch) (n target : EntryId) : Block :=
  if target = l.instrumented then [called (.save k false) n]
  else if target = l.plain then [called (.save k true) (n + 1), called (.restore k) (n + 2)]
  else if target = l.terminator then [called (.compare k arch) (n + 3)]
  else []

theorem callsFor_calls (hl : l.markers.Nodup) (k : Nat) (arch : Arch) (n target : EntryId) :
    callsFor target (l.calls k arch) n = l.callsBefore k arch n target := by
  simp only [markers, List.nodup_cons, List.mem_cons, List.not_mem_nil, or_false, not_or] at hl
  obtain ⟨⟨hxy, hxz⟩, hyz, -⟩ := hl
  simp only [calls, callsFor, callsBefore, List.append_nil, eq_comm (b := target)]
  by_cases hx : target = l.instrumented
  · simp only [hx, hxy, hxz, if_true, if_false, List.append_nil]
  by_cases hy : target = l.plain
  · simp only [hy, Ne.symm hxy, hyz, if_true, if_false, List.nil_append, List.append_nil,
      List.cons_append]
  · simp only [hx, hy, if_false, List.nil_append]

/-- Whether a marker is missing is found out before anything is done. -/
theorem install_of_missing {i : EntryId} (hi : i ∈ l.markers) (h : ∀ x ∈ d.block, x.id ≠ i)
    (k : Nat) (arch : Arch) : l.install k arch d = ⟨.ok false, d, []⟩ := by
  have hnot : ¬l.markers.all d.block.has := by
    simpa [Block.has] using ⟨i, hi, h⟩
  rw [install_eq]
  refine bind_quiet_eq (get_apply d) ?_
  rw [if_neg hnot]
  rfl

theorem targets_exist (h : ∀ i ∈ l.markers, ∃ x ∈ b, x.id = i) (k : Nat) (arch : Arch) :
    ∀ p ∈ l.calls k arch, ∃ x ∈ b, x.id = p.1 := by
  have hmarkers : ∀ p ∈ l.calls k arch, p.1 ∈ l.markers := by simp [calls, markers]
  exact fun p hp => h p.1 (hmarkers p hp)

theorem install_of_forall_exists (hd : d.Numbered) (h : ∀ i ∈ l.markers, ∃ x ∈ d.block, x.id = i)
    (k : Nat) (arch : Arch) : l.install k arch d
        = ⟨.ok true, ⟨withCalls (l.calls k arch) d.nextId d.block, d.nextId + 4⟩, []⟩
      ∧ Numbered ⟨withCalls (l.calls k arch) d.nextId d.block, d.nextId + 4⟩ := by
  have hall : l.markers.all d.block.has := by
    simpa [Block.has] using h
  obtain ⟨happly, hd'⟩ := insertCalls_apply hd (targets_exist h k arch)
  refine ⟨?_, hd'⟩
  rw [install_eq]
  refine bind_quiet_eq (get_apply d) ?_
  rw [if_pos hall]
  exact happly

/-- Calls are put in unless a marker is missing, and then nothing is done at all. Wherever the
markers stand, what comes out is the block with the calls right in front of them; the four calls are
all that is new in it, and what is old in it is the block as it was. -/
theorem install_places_calls (hd : d.Numbered) (hl : l.markers.Nodup) (k : Nat) (arch : Arch) :
    ((l.install k arch d).result = .ok false ↔ ∃ i ∈ l.markers, ∀ x ∈ d.block, x.id ≠ i)
    ∧ ((l.install k arch d).result = .ok false → (l.install k arch d).state = d)
    ∧ ((l.install k arch d).result ≠ .ok false → ∃ b,
      l.install k arch d = ⟨.ok true, ⟨b, d.nextId + 4⟩, []⟩ ∧ Numbered ⟨b, d.nextId + 4⟩
      ∧ b = d.block.flatMap (fun x => l.callsBefore k arch d.nextId x.id ++ [x])
      ∧ b.filter (·.id < d.nextId) = d.block
      ∧ (b.filter (d.nextId ≤ ·.id)).Perm
        [called (.save k false) d.nextId, called (.save k true) (d.nextId + 1),
          called (.restore k) (d.nextId + 2), called (.compare k arch) (d.nextId + 3)]) := by
  by_cases hmissing : ∃ i ∈ l.markers, ∀ x ∈ d.block, x.id ≠ i
  · obtain ⟨i, hi, hne⟩ := hmissing
    have happly := install_of_missing hi hne k arch
    rw [happly]
    exact ⟨iff_of_true rfl ⟨i, hi, hne⟩, fun _ => rfl, fun hnot => absurd rfl hnot⟩
  have hpresent : ∀ i ∈ l.markers, ∃ x ∈ d.block, x.id = i := by
    simpa using hmissing
  obtain ⟨happly, hnumbered⟩ := install_of_forall_exists hd hpresent k arch
  rw [happly]
  refine ⟨iff_of_false nofun hmissing, nofun, fun _ => ⟨_, rfl, hnumbered, ?_, ?_, ?_⟩⟩
  · simp only [withCalls, callsFor_calls hl]
  · exact filter_withCalls hd.old _
  · have hperm := perm_withCalls hd.nodup (targets_exist hpresent k arch) d.nextId
    have hold : d.block.filter (d.nextId ≤ ·.id) = [] :=
      List.filter_eq_nil_iff.2 fun x hx => by simpa using hd.old x hx
    refine (hperm.filter (d.nextId ≤ ·.id)).trans (List.Perm.of_eq ?_)
    rw [List.filter_append, hold, List.append_nil]
    simp [allCalled, calls, called, Nat.add_assoc]

/-- The markers from the last to the first, with an instruction in between. -/
def backwards : Draft where
  block := [⟨3, .label, false, none⟩, ⟨2, .label, false, none⟩,
    ⟨7, .machine (.increment 0), true, none⟩, ⟨1, .label, false, none⟩]
  nextId := 8

theorem install_places_calls_backwards : ∃ b,
    install ⟨1, 2, 3, true⟩ 0 .x64 backwards = ⟨.ok true, ⟨b, 12⟩, []⟩
    ∧ b.map (·.id) = [11, 3, 9, 10, 2, 7, 8, 1] ∧ b.filter (·.id < 8) = backwards.block := by
  have hd : backwards.Numbered := by decide
  obtain ⟨hiff, -, hinstalled⟩ := install_places_calls (l := ⟨1, 2, 3, true⟩) hd (by decide) 0 .x64
  have hnot : ¬∃ i ∈ markers ⟨1, 2, 3, true⟩, ∀ x ∈ backwards.block, x.id ≠ i := by decide
  obtain ⟨b, happly, -, rfl, hold, -⟩ := hinstalled (mt hiff.1 hnot)
  exact ⟨_, happly, by decide, hold⟩

end Layout

end Rerun
