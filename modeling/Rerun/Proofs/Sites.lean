import Rerun.Proofs.Processed

/-!
# Activations that share a host

A site is a host, the activations on it, and the storage slots that other users hold. Activations
are asked for and let go of, while other clients come and go and other users take slots and give
them back. All the while the host's tables and the live checkers fit together (`Serves`): each live
checker has its client, a slot and three notes, none of them shared, and every other slot in use is
another user's. Hence a request ends as the count says (`requests_consistent`).
-/

namespace Rerun

open Rerun.Action

namespace Checker

/-- Two checkers that get in each other's way neither by their names nor by their notes. -/
def Apart (c c' : Checker) : Prop :=
  c.priority.name ≠ c'.priority.name ∧ ∀ note, ¬(c.markers.Covers note ∧ c'.markers.Covers note)

theorem Apart.symm {c c' : Checker} (h : c.Apart c') : c'.Apart c :=
  ⟨h.1.symm, fun note hn => h.2 note hn.symm⟩

end Checker

namespace Host

variable {h h' : Host} {live live' : List Checker} {others : List Nat} {c : Checker}
  {r : Registration} {k : Nat} {name : String}

/-- The host has set up the checkers of a list, and the slots of another list are in the hands of
other users. -/
structure Serves (h : Host) (live : List Checker) (others : List Nat) : Prop where
  names : (h.clients.map (·.priority.name)).Nodup
  clients : ∀ c ∈ live, c.registration ∈ h.clients
  nodup : h.taken.Nodup
  slots : h.taken.Perm (live.map (·.slot) ++ others)
  notes : ∀ c ∈ live, c.Registered ∧ c.markers.base.toNat + Markers.count ≤ h.nextNote.toNat
  apart : live.Pairwise Checker.Apart

/-- The slots in use are those of the checkers of a list and those of another list, none of them
twice. -/
structure Lends (h : Host) (live : List Checker) (others : List Nat) : Prop where
  nodup : h.taken.Nodup
  slots : h.taken.Perm (live.map (·.slot) ++ others)

theorem Serves.lends (hs : h.Serves live others) : h.Lends live others := ⟨hs.nodup, hs.slots⟩

theorem Lends.perm (hl : h.Lends live others) (hp : live.Perm live') : h.Lends live' others :=
  ⟨hl.nodup, hl.slots.trans ((hp.map _).append_right others)⟩

theorem Serves.perm (hs : h.Serves live others) (hp : live.Perm live') : h.Serves live' others where
  names := hs.names
  clients c hc := hs.clients c (hp.mem_iff.2 hc)
  nodup := hs.nodup
  slots := (hs.lends.perm hp).slots
  notes c hc := hs.notes c (hp.mem_iff.2 hc)
  apart := (hp.pairwise_iff fun h => h.symm).1 hs.apart

/-- Nothing has changed but that notes have been handed out. -/
theorem Serves.congr (hs : h.Serves live others) (hclients : h'.clients = h.clients)
    (htaken : h'.taken = h.taken) (hnotes : h.nextNote.toNat ≤ h'.nextNote.toNat) :
    h'.Serves live others where
  names := hclients ▸ hs.names
  clients c hc := hclients ▸ hs.clients c hc
  nodup := htaken ▸ hs.nodup
  slots := htaken ▸ hs.slots
  notes c hc := ⟨(hs.notes c hc).1, Nat.le_trans (hs.notes c hc).2 hnotes⟩
  apart := hs.apart

theorem Serves.empty (hclients : h.clients = []) (htaken : h.taken = []) : h.Serves [] [] where
  names := by simp [hclients]
  clients := nofun
  nodup := by simp [htaken]
  slots := by simp [htaken]
  notes := nofun
  apart := List.Pairwise.nil

theorem toNat_add_of_hasNotes {count : Word} (hn : h.HasNotes count) :
    (BitVec.ofNat 64 (h.nextNote.toNat + count.toNat) : Note).toNat
      = h.nextNote.toNat + count.toNat := by
  have hend := h.noteEnd.isLt
  rw [HasNotes] at hn
  rw [BitVec.toNat_ofNat, Nat.mod_eq_of_lt (by omega)]

theorem toNat_nextNote_add (hn : h.HasNotes (BitVec.ofNat 64 Markers.count)) :
    (BitVec.ofNat 64 (h.nextNote.toNat + Markers.count) : Note).toNat
      = h.nextNote.toNat + Markers.count :=
  toNat_add_of_hasNotes hn

/-! ## Slots come and go -/

theorem Lends.settle (hl : h.Lends live others) (hk : c.slot ∉ h.taken) :
    (c.settle h).Lends (c :: live) others :=
  ⟨List.nodup_cons.2 ⟨hk, hl.nodup⟩, hl.slots.cons c.slot⟩

theorem Lends.dismiss (hl : h.Lends (c :: live) others) : (c.dismiss h).Lends live others := by
  refine ⟨hl.nodup.erase c.slot, ?_⟩
  have hslots := hl.slots.erase c.slot
  rwa [List.map_cons, List.cons_append, List.erase_cons_head] at hslots

theorem takeSlot_eq_some (hk : h.takeSlot = (some k, h')) :
    k ∉ h.taken ∧ h' = { h with taken := k :: h.taken } := by
  rcases hfree : h.freeSlot? with _ | j
  · rw [takeSlot_of_no_freeSlot? hfree] at hk
    cases hk
  · rw [takeSlot_of_freeSlot? hfree] at hk
    cases hk
    exact ⟨not_mem_of_freeSlot? hfree, rfl⟩

theorem Lends.takeSlot (hl : h.Lends live others) (hk : h.takeSlot = (some k, h')) :
    h'.Lends live (k :: others) := by
  obtain ⟨hfree, rfl⟩ := takeSlot_eq_some hk
  exact ⟨List.nodup_cons.2 ⟨hfree, hl.nodup⟩, (hl.slots.cons k).trans List.perm_middle.symm⟩

theorem Lends.releaseSlot (hl : h.Lends live others) (hk : k ∈ others) :
    (h.releaseSlot k).2.Lends live (others.erase k) := by
  have hmem : k ∈ h.taken := hl.slots.mem_iff.2 (List.mem_append_right _ hk)
  have hnot : k ∉ live.map (·.slot) := fun hlive =>
    (List.nodup_append.1 (hl.slots.nodup_iff.1 hl.nodup)).2.2 k hlive k hk rfl
  rw [releaseSlot_of_mem hmem]
  refine ⟨hl.nodup.erase k, ?_⟩
  have hslots := hl.slots.erase k
  rwa [List.erase_append_right _ hnot] at hslots

theorem Lends.mem_taken (hl : h.Lends live others) (hc : c ∈ live) : c.slot ∈ h.taken :=
  hl.slots.mem_iff.2 (List.mem_append_left _ (List.mem_map_of_mem hc))

theorem Lends.slotsInUse (hl : h.Lends live others) :
    h.slotsInUse = live.length + others.length := by
  rw [Host.slotsInUse, hl.slots.length_eq, List.length_append, List.length_map]

/-! ## Checkers come and go -/

/-- A client that is let in brings a new name. -/
theorem nodup_names_place (hr : ¬h.Refuses r) (hnames : (h.clients.map (·.priority.name)).Nodup) :
    ((place r h.clients).map (·.priority.name)).Nodup := by
  refine (((place_perm r h.clients).map (·.priority.name)).nodup_iff).2
    (List.nodup_cons.2 ⟨?_, hnames⟩)
  intro hmem
  obtain ⟨x, hx, heq⟩ := List.mem_map.1 hmem
  exact name_ne_of_not_refuses hr hx heq

theorem Serves.settle {config : Config} (hs : h.Serves live others) (hk : h.freeSlot? = some k)
    (hn : h.HasNotes (BitVec.ofNat 64 Markers.count))
    (hr : ¬h.Refuses (Checker.offered config h k).registration) :
    ((Checker.offered config h k).settle h).Serves (Checker.offered config h k :: live) others := by
  have hlends := hs.lends.settle (c := Checker.offered config h k) (not_mem_of_freeSlot? hk)
  have hperm := place_perm (Checker.offered config h k).registration h.clients
  have hname : ∀ x ∈ h.clients, x.priority.name ≠ config.priority.name :=
    fun x hx => name_ne_of_not_refuses hr hx
  have hnext := toNat_nextNote_add hn
  constructor
  · exact nodup_names_place hr hs.names
  · intro c hc
    refine hperm.mem_iff.2 ?_
    rcases List.mem_cons.1 hc with rfl | hc
    · exact List.mem_cons_self
    · exact List.mem_cons_of_mem _ (hs.clients c hc)
  · exact hlends.nodup
  · exact hlends.slots
  · intro c hc
    show _ ∧ _ ≤ (BitVec.ofNat 64 (h.nextNote.toNat + Markers.count) : Note).toNat
    rw [hnext]
    rcases List.mem_cons.1 hc with rfl | hc
    · exact ⟨⟨config, h, (Checker.register_ends_ok hk hn hr).1⟩, Nat.le_refl _⟩
    · exact ⟨(hs.notes c hc).1, Nat.le_trans (hs.notes c hc).2 (Nat.le_add_right _ _)⟩
  · refine List.pairwise_cons.2 ⟨fun c hc => ⟨(hname _ (hs.clients c hc)).symm, ?_⟩, hs.apart⟩
    rintro note ⟨⟨hlow, -⟩, -, hhigh⟩
    -- the new notes begin where those handed out end
    have hbelow := (hs.notes c hc).2
    exact Nat.not_le_of_lt hhigh (Nat.le_trans hbelow hlow)

theorem Serves.dismiss (hs : h.Serves (c :: live) others) : (c.dismiss h).Serves live others := by
  have hapart := List.pairwise_cons.1 hs.apart
  constructor
  · exact hs.names.sublist (List.filter_sublist.map _)
  · intro c' hc'
    refine List.mem_filter.2 ⟨hs.clients c' (List.mem_cons_of_mem _ hc'), ?_⟩
    simpa using fun heq => (hapart.1 c' hc').1 heq.symm
  · exact hs.lends.dismiss.nodup
  · exact hs.lends.dismiss.slots
  · exact fun c' hc' => hs.notes c' (List.mem_cons_of_mem _ hc')
  · exact hapart.2

/-! ## What others do -/

theorem Serves.addClient (hs : h.Serves live others) (r : Registration) :
    (h.addClient r).2.Serves live others := by
  by_cases hr : h.Refuses r
  · rw [addClient_of_refuses hr]
    exact hs
  · rw [addClient_of_not_refuses hr]
    refine ⟨nodup_names_place hr hs.names, fun c hc => ?_, hs.nodup, hs.slots, hs.notes, hs.apart⟩
    exact (place_perm r h.clients).mem_iff.2 (List.mem_cons_of_mem _ (hs.clients c hc))

theorem Serves.removeClient (hs : h.Serves live others)
    (hname : ∀ c ∈ live, c.priority.name ≠ name) : (h.removeClient name).2.Serves live others := by
  refine ⟨?_, fun c hc => ?_, hs.nodup, hs.slots, hs.notes, hs.apart⟩
  · exact hs.names.sublist (List.filter_sublist.map _)
  · exact List.mem_filter.2 ⟨hs.clients c hc, bne_iff_ne.2 (hname c hc)⟩

theorem Serves.takeSlot (hs : h.Serves live others) (hk : h.takeSlot = (some k, h')) :
    h'.Serves live (k :: others) := by
  have hlends := hs.lends.takeSlot hk
  obtain ⟨-, rfl⟩ := takeSlot_eq_some hk
  exact ⟨hs.names, hs.clients, hlends.nodup, hlends.slots, hs.notes, hs.apart⟩

theorem Serves.releaseSlot (hs : h.Serves live others) (hk : k ∈ others) :
    (h.releaseSlot k).2.Serves live (others.erase k) := by
  have hlends := hs.lends.releaseSlot hk
  rw [releaseSlot_of_mem (hs.slots.mem_iff.2 (List.mem_append_right _ hk))] at hlends ⊢
  exact ⟨hs.names, hs.clients, hlends.nodup, hlends.slots, hs.notes, hs.apart⟩

theorem Serves.mem_taken (hs : h.Serves live others) (hc : c ∈ live) : c.slot ∈ h.taken :=
  hs.lends.mem_taken hc

/-- Where no name occurs twice, the name of a client is its own. -/
theorem filter_name_eq {clients : List Registration}
    (hnames : (clients.map (·.priority.name)).Nodup) (hr : r ∈ clients) :
    clients.filter (·.priority.name == r.priority.name) = [r] := by
  induction clients with
  | nil => cases hr
  | cons x rest ih =>
    obtain ⟨hx, hrest⟩ := List.nodup_cons.1 hnames
    rcases List.mem_cons.1 hr with rfl | hr
    · rw [List.filter_cons_of_pos (by simp), List.cons.injEq, List.filter_eq_nil_iff]
      exact ⟨rfl, fun y hy heq => hx (List.mem_map.2 ⟨y, hy, eq_of_beq heq⟩)⟩
    · rw [List.filter_cons_of_neg, ih hrest hr]
      exact fun heq => hx (List.mem_map.2 ⟨r, hr, (eq_of_beq heq).symm⟩)

theorem Serves.slotsInUse (hs : h.Serves live others) :
    h.slotsInUse = live.length + others.length :=
  hs.lends.slotsInUse

theorem Serves.nodup_slots (hs : h.Serves live others) : (live.map (·.slot)).Nodup :=
  (List.nodup_append.1 (hs.slots.nodup_iff.1 hs.nodup)).1

theorem Serves.pairwise (hs : h.Serves live others) :
    live.Pairwise fun c c' => c.slot ≠ c'.slot
      ∧ ∀ note, ¬(c.markers.Covers note ∧ c'.markers.Covers note) :=
  (List.pairwise_map.1 hs.nodup_slots).and (hs.apart.imp And.right)

end Host

namespace Activation

open Host

variable {a : Activation} {h : Host} {rest : List Checker} {others : List Nat} {calls : Nat}

/-- There is a checker exactly if someone asks for it. -/
def Matched (a : Activation) : Prop := 0 < a.count ↔ a.checker.isSome

theorem Matched.exists_checker (ha : a.Matched) (hcount : 0 < a.count) :
    ∃ c, a.checker = some c :=
  Option.isSome_iff_exists.1 (ha.1 hcount)

theorem Matched.checker_eq_none (ha : a.Matched) (hcount : a.count = 0) : a.checker = none := by
  rw [Matched, hcount] at ha
  exact Option.not_isSome_iff_eq_none.1 (mt ha.2 (Nat.lt_irrefl 0))

/-- After some calls, the count says whether there is a checker, and the checker is the one asked
for. -/
structure Accounted (a : Activation) (calls : Nat) : Prop where
  count_pos : 0 < a.count ↔ a.checker.isSome
  count_le : a.count ≤ calls
  checker : ∀ c, a.checker = some c → c.priority = a.config.priority ∧ c.arch = a.config.arch

theorem Accounted.mono {calls' : Nat} (ha : a.Accounted calls) (h : calls ≤ calls') :
    a.Accounted calls' :=
  ⟨ha.count_pos, Nat.le_trans ha.count_le h, ha.checker⟩

theorem accounted_new (config : Config) : (new config).Accounted 0 :=
  ⟨by simp [new], Nat.le_refl _, nofun⟩

theorem Accounted.matched (ha : a.Accounted calls) : a.Matched := ha.count_pos

/-- Asking for the checker: only the first request touches the host. -/
theorem Accounted.activate (ha : a.Accounted calls)
    (hs : h.Serves (a.checker.toList ++ rest) others) :
    ∃ status a' h', a.activate.Ends h (.ok (status, a')) h'
      ∧ (status = .alreadyInitialized ∧ a'.count = a.count + 1 ↔ 0 < a.count)
      ∧ (a.count = 0 → status = .success ∧ a'.count = 1 ∨ status = .error ∧ a' = a)
      ∧ a'.config = a.config ∧ a'.Accounted (calls + 1)
      ∧ h'.Serves (a'.checker.toList ++ rest) others := by
  have hnext := ha.mono (Nat.le_add_right calls 1)
  rcases Nat.eq_zero_or_pos a.count with hcount | hcount
  · have hnone := ha.matched.checker_eq_none hcount
    rw [hnone] at hs
    have hfirst : ∀ (status : Status) (a' : Activation), status ≠ .alreadyInitialized →
        (status = .alreadyInitialized ∧ a'.count = a.count + 1 ↔ 0 < a.count) := by
      intro status a' hne
      simp [hne, hcount]
    rcases Checker.register_cases a.config h with ⟨e, h', hends, hh'⟩ | ⟨k, hk, hn, hr, hends⟩
    · refine ⟨_, _, _, activate_ends_error hcount hends, hfirst _ a nofun,
        fun _ => .inr ⟨rfl, rfl⟩, rfl, hnext, ?_⟩
      rw [hnone]
      -- notes are not given back when a later step of the setup fails
      rcases hh' with rfl | ⟨hn, rfl⟩
      · exact hs
      · exact hs.congr rfl rfl (by rw [toNat_nextNote_add hn]; exact Nat.le_add_right _ _)
    · refine ⟨_, _, _, activate_ends_ok hcount hends, hfirst _ _ nofun, fun _ => .inl ⟨rfl, rfl⟩,
        rfl, ⟨by simp, Nat.le_add_left _ _, ?_⟩, hs.settle hk hn hr⟩
      rintro c ⟨⟩
      exact ⟨rfl, rfl⟩
  · have hne : a.count ≠ 0 := Nat.ne_of_gt hcount
    have hisSome := ha.count_pos.1 hcount
    exact ⟨_, _, _, activate_ends_again hne, by simp [hcount], fun h => absurd h hne, rfl,
      ⟨by simp [hisSome], Nat.succ_le_succ ha.count_le, ha.checker⟩, hs⟩

/-- Letting go of the checker: only the last one to let go touches the host. -/
theorem Accounted.deactivate (ha : a.Accounted calls)
    (hs : h.Serves (a.checker.toList ++ rest) others) :
    ∃ status a' h', a.deactivate.Ends h (.ok (status, a')) h'
      ∧ (status = .success ↔ a.count = 1) ∧ (status = .notInitialized ↔ a.count ≠ 1)
      ∧ a'.count = a.count - 1
      ∧ a'.config = a.config ∧ a'.Accounted (calls + 1)
      ∧ h'.Serves (a'.checker.toList ++ rest) others := by
  have hnext := ha.mono (Nat.le_add_right calls 1)
  rcases Nat.lt_trichotomy a.count 1 with hcount | hcount | hcount
  · obtain hzero : a.count = 0 := by omega
    exact ⟨_, _, _, deactivate_ends_idle hzero, by simp [hzero], by simp [hzero], by simp [hzero],
      rfl, hnext, hs⟩
  · obtain ⟨c, hc⟩ := ha.matched.exists_checker (by omega)
    rw [hc] at hs
    have hmem : c ∈ (some c).toList ++ rest := List.mem_cons_self
    have hends := Checker.unregister_ends_ok (hs.clients c hmem) (hs.mem_taken hmem)
    exact ⟨_, _, _, deactivate_ends_ok hcount hc hends, by simp [hcount], by simp [hcount],
      by simp [hcount], rfl, ⟨by simp, Nat.zero_le _, nofun⟩, hs.dismiss⟩
  · have hpos : 0 < a.count - 1 := by omega
    have hne : a.count ≠ 1 := Nat.ne_of_gt hcount
    have hisSome := ha.count_pos.1 (by omega)
    exact ⟨_, _, _, deactivate_ends_shared hcount, by simp [hne], by simp [hne], rfl,
      rfl, ⟨by simp [hpos, hisSome], Nat.le_trans (Nat.sub_le _ _) hnext.count_le, ha.checker⟩, hs⟩

end Activation

/-! ## Sites -/

/-- A host, the activations on it, and the storage slots in the hands of other users. -/
structure Site where
  host : Host
  activations : List Activation
  others : List Nat

namespace Site

open Host

variable {s s' : Site} {configs : List Config} {calls : Nat}

/-- The checkers that are set up. -/
def live (s : Site) : List Checker := s.activations.filterMap (·.checker)

/-- No checker is asked for under the name. -/
def Foreign (s : Site) (name : String) : Prop :=
  ∀ a ∈ s.activations, a.config.priority.name ≠ name

/-- Nobody has asked for anything yet. -/
def start (h : Host) (configs : List Config) : Site := ⟨h, configs.map Activation.new, []⟩

/-- A request. -/
inductive Call : Site → Site → Prop
  /-- A checker is asked for. -/
  | activate {s : Site} {pre post : List Activation} {a a' : Activation} {status : Status}
      {h : Host} (activations : s.activations = pre ++ a :: post)
      (ended : a.activate.Ends s.host (.ok (status, a')) h) :
      Call s { s with host := h, activations := pre ++ a' :: post }
  /-- A checker is let go of. -/
  | deactivate {s : Site} {pre post : List Activation} {a a' : Activation} {status : Status}
      {h : Host} (activations : s.activations = pre ++ a :: post)
      (ended : a.deactivate.Ends s.host (.ok (status, a')) h) :
      Call s { s with host := h, activations := pre ++ a' :: post }

/-- What others do. -/
inductive Other : Site → Site → Prop
  /-- A client comes. -/
  | addClient {s : Site} {r : Registration} (foreign : s.Foreign r.priority.name) :
      Other s { s with host := (s.host.addClient r).2 }
  /-- A client goes. -/
  | removeClient {s : Site} {name : String} (foreign : s.Foreign name) :
      Other s { s with host := (s.host.removeClient name).2 }
  /-- A slot is taken. -/
  | takeSlot {s : Site} {k : Nat} {h : Host} (taken : s.host.takeSlot = (some k, h)) :
      Other s { s with host := h, others := k :: s.others }
  /-- A slot is given back. -/
  | releaseSlot {s : Site} {k : Nat} (held : k ∈ s.others) :
      Other s { s with host := (s.host.releaseSlot k).2, others := s.others.erase k }
  /-- The host does something else, and keeps its clients, its slots and the notes handed out. -/
  | host {s : Site} {h : Host} (clients : h.clients = s.host.clients)
      (taken : h.taken = s.host.taken) (notes : s.host.nextNote.toNat ≤ h.nextNote.toNat) :
      Other s { s with host := h }

/-- What can become of a site after a number of requests. -/
inductive Reaches (s₀ : Site) : Nat → Site → Prop
  | refl : Reaches s₀ 0 s₀
  | call {calls : Nat} {s s' : Site} (reached : Reaches s₀ calls s) (next : Call s s') :
      Reaches s₀ (calls + 1) s'
  | other {calls : Nat} {s s' : Site} (reached : Reaches s₀ calls s) (next : Other s s') :
      Reaches s₀ calls s'

/-- The activations are accounted for, and the host has set up their checkers. -/
structure Inv (configs : List Config) (calls : Nat) (s : Site) : Prop where
  configs : s.activations.map (·.config) = configs
  accounted : ∀ a ∈ s.activations, a.Accounted calls
  serves : s.host.Serves s.live s.others

theorem live_perm (pre : List Activation) (a : Activation) (post : List Activation) :
    ((pre ++ a :: post).filterMap (·.checker)).Perm
      (a.checker.toList ++ (pre ++ post).filterMap (·.checker)) := by
  refine (List.perm_middle.filterMap _).trans ?_
  rw [List.filterMap_cons]
  cases a.checker <;> exact List.Perm.refl _

theorem Inv.serves_of_eq {pre post : List Activation} {a : Activation} (hs : Inv configs calls s)
    (ha : s.activations = pre ++ a :: post) :
    s.host.Serves (a.checker.toList ++ (pre ++ post).filterMap (·.checker)) s.others := by
  have hserves := hs.serves
  rw [live, ha] at hserves
  exact hserves.perm (live_perm pre a post)

theorem mem_of_mem_update {pre post : List Activation} {a a' x : Activation}
    (ha : s.activations = pre ++ a :: post) (hx : x ∈ pre ++ a' :: post) :
    x = a' ∨ x ∈ s.activations := by
  rw [ha]
  have hsplit := List.mem_append.1 hx
  grind

/-- A request concerns one activation. -/
theorem Inv.update {pre post : List Activation} {a a' : Activation} {h : Host}
    (hs : Inv configs calls s) (ha : s.activations = pre ++ a :: post)
    (hconfig : a'.config = a.config) (ha' : a'.Accounted (calls + 1))
    (hserves : h.Serves (a'.checker.toList ++ (pre ++ post).filterMap (·.checker)) s.others) :
    Inv configs (calls + 1) { s with host := h, activations := pre ++ a' :: post } := by
  refine ⟨?_, fun x hx => ?_, hserves.perm (live_perm pre a' post).symm⟩
  · rw [← hs.configs, ha]
    simp [hconfig]
  · rcases mem_of_mem_update ha hx with rfl | hmem
    · exact ha'
    · exact (hs.accounted x hmem).mono (Nat.le_add_right _ _)

theorem Inv.call (hs : Inv configs calls s) (h : Call s s') : Inv configs (calls + 1) s' := by
  cases h with
  | activate activations ended =>
    obtain ⟨_, _, _, hends, -, -, hconfig, hacc, hserves⟩ :=
      (hs.accounted _ (by simp [activations])).activate (hs.serves_of_eq activations)
    obtain ⟨heq, rfl⟩ := Ends.unique hends ended
    cases heq
    exact hs.update activations hconfig hacc hserves
  | deactivate activations ended =>
    obtain ⟨_, _, _, hends, -, -, -, hconfig, hacc, hserves⟩ :=
      (hs.accounted _ (by simp [activations])).deactivate (hs.serves_of_eq activations)
    obtain ⟨heq, rfl⟩ := Ends.unique hends ended
    cases heq
    exact hs.update activations hconfig hacc hserves

theorem Inv.name_ne {name : String} (hs : Inv configs calls s) (hname : s.Foreign name) :
    ∀ c ∈ s.live, c.priority.name ≠ name := by
  intro c hc
  obtain ⟨a, ha, hac⟩ := List.mem_filterMap.1 hc
  rw [((hs.accounted a ha).checker c hac).1]
  exact hname a ha

theorem Inv.other (hs : Inv configs calls s) (h : Other s s') : Inv configs calls s' := by
  cases h with
  | addClient foreign => exact ⟨hs.configs, hs.accounted, hs.serves.addClient _⟩
  | removeClient foreign =>
    exact ⟨hs.configs, hs.accounted, hs.serves.removeClient (hs.name_ne foreign)⟩
  | takeSlot taken => exact ⟨hs.configs, hs.accounted, hs.serves.takeSlot taken⟩
  | releaseSlot held => exact ⟨hs.configs, hs.accounted, hs.serves.releaseSlot held⟩
  | host clients taken notes =>
    exact ⟨hs.configs, hs.accounted, hs.serves.congr clients taken notes⟩

theorem inv_start {h : Host} (configs : List Config) (hclients : h.clients = [])
    (htaken : h.taken = []) : Inv configs 0 (start h configs) := by
  refine ⟨?_, fun a ha => ?_, ?_⟩
  · simp [Site.start, Activation.new, Function.comp_def]
  · obtain ⟨config, -, rfl⟩ := List.mem_map.1 ha
    exact Activation.accounted_new config
  · have hlive : (Site.start h configs).live = [] := by
      simp [Site.start, live, Activation.new, List.filterMap_map]
    rw [hlive]
    exact Host.Serves.empty hclients htaken

theorem Inv.reaches {h : Host} (hclients : h.clients = []) (htaken : h.taken = [])
    (hs : Reaches (start h configs) calls s) : Inv configs calls s := by
  induction hs with
  | refl => exact inv_start configs hclients htaken
  | call _ next ih => exact ih.call next
  | other _ next ih => exact ih.other next

theorem Inv.checker_of_live {c : Checker} (hs : Inv configs calls s) (hc : c ∈ s.live) :
    c.Registered ∧ ∃ config ∈ configs, c.priority = config.priority ∧ c.arch = config.arch := by
  obtain ⟨a, ha, hac⟩ := List.mem_filterMap.1 hc
  refine ⟨(hs.serves.notes c hc).1, a.config, ?_, (hs.accounted a ha).checker c hac⟩
  rw [← hs.configs]
  exact List.mem_map_of_mem ha

theorem Inv.length_live (hs : Inv configs calls s) (hlive : ∀ a ∈ s.activations, 0 < a.count) :
    s.live.length = configs.length := by
  have hall : s.live.length = s.activations.length := by
    refine List.filterMap_length_eq_length.2 fun a ha => ?_
    exact (hs.accounted a ha).count_pos.1 (hlive a ha)
  rw [hall, ← hs.configs, List.length_map]

/-- Whatever has been asked for, and whatever others have done: an activation has a checker exactly
if its count is positive, each checker has a client, a slot and three notes to itself, all other
slots in use are those of others, and each request is answered as the count says. -/
theorem requests_consistent {h : Host} (hclients : h.clients = []) (htaken : h.taken = [])
    (hs : Reaches (start h configs) calls s) :
    s.activations.map (·.config) = configs
    ∧ (∀ a ∈ s.activations, (0 < a.count ↔ a.checker.isSome) ∧ a.count ≤ calls
      ∧ ∀ c, a.checker = some c → c.priority = a.config.priority ∧ c.arch = a.config.arch)
    ∧ (∀ c ∈ s.live,
      s.host.clients.filter (·.priority.name == c.priority.name) = [c.registration]
        ∧ c.slot ∈ s.host.taken ∧ c.markers.Fits)
    ∧ (s.live.Pairwise fun c c' => c.slot ≠ c'.slot
      ∧ ∀ note, ¬(c.markers.Covers note ∧ c'.markers.Covers note))
    ∧ s.host.slotsInUse = s.live.length + s.others.length
    ∧ (∀ a ∈ s.activations, ∃ status a' h', a.activate.Ends s.host (.ok (status, a')) h'
      ∧ (status = .alreadyInitialized ∧ a'.count = a.count + 1 ↔ 0 < a.count)
      ∧ (a.count = 0 → status = .success ∧ a'.count = 1 ∨ status = .error ∧ a' = a))
    ∧ ∀ a ∈ s.activations, ∃ status a' h', a.deactivate.Ends s.host (.ok (status, a')) h'
      ∧ (status = .success ↔ a.count = 1) ∧ (status = .notInitialized ↔ a.count ≠ 1)
      ∧ a'.count = a.count - 1 := by
  have hinv := Inv.reaches hclients htaken hs
  have hserves := hinv.serves
  refine ⟨hinv.configs, fun a ha => ?_, fun c hc => ?_, hserves.pairwise, hserves.slotsInUse,
    fun a ha => ?_, fun a ha => ?_⟩
  · have hacc := hinv.accounted a ha
    exact ⟨hacc.count_pos, hacc.count_le, hacc.checker⟩
  · exact ⟨filter_name_eq hserves.names (hserves.clients c hc), hserves.mem_taken hc,
      (hserves.notes c hc).1.fits⟩
  · obtain ⟨pre, post, heq⟩ := List.append_of_mem ha
    obtain ⟨status, a', h', hends, hstatus, hzero, -⟩ :=
      (hinv.accounted a ha).activate (hinv.serves_of_eq heq)
    exact ⟨status, a', h', hends, hstatus, hzero⟩
  · obtain ⟨pre, post, heq⟩ := List.append_of_mem ha
    obtain ⟨status, a', h', hends, hsuccess, hidle, hcount, -⟩ :=
      (hinv.accounted a ha).deactivate (hinv.serves_of_eq heq)
    exact ⟨status, a', h', hends, hsuccess, hidle, hcount⟩

/-- Two activations that ask for the same name. The first has been answered. -/
def shared : Site where
  host := Checker.first.settle Host.new
  activations := [⟨.new .x64, 1, some Checker.first⟩, .new (.new .x64)]
  others := []

theorem reaches_shared : Reaches (start Host.new [.new .x64, .new .x64]) 1 shared := by
  have hfirst : (start Host.new [.new .x64, .new .x64]).activations
      = [] ++ .new (.new .x64) :: [.new (.new .x64)] := rfl
  exact .call .refl (.activate hfirst (Activation.activate_ends_ok rfl Checker.first_ends))

theorem requests_consistent_shared :
    shared.host.slotsInUse = shared.live.length + shared.others.length
      ∧ ∃ a h, (Activation.mk (.new .x64) 1 (some .first)).activate.Ends shared.host
          (.ok (.alreadyInitialized, a)) h ∧ a.count = 2 := by
  obtain ⟨-, -, -, -, hslots, hactivate, -⟩ := requests_consistent rfl rfl reaches_shared
  obtain ⟨status, a, h, hends, hstatus, -⟩ := hactivate _ List.mem_cons_self
  obtain ⟨rfl, hcount⟩ := hstatus.2 Nat.one_pos
  exact ⟨hslots, a, h, hends, hcount⟩

end Site

end Rerun
