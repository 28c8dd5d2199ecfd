import Mathlib.Data.List.Forall2
import Rerun.Proofs.Sites

/-!
# Notes that are handed out

A host hands out its notes from the first one upwards, in rows of any length, and three at a time to
those who want markers. Nothing is handed out twice or beyond the host's last note, and a request
that is refused leaves the host as it was. So a checker's markers are told from everything else by
their notes alone, and no sum of a note and an offset leaves the range of words, even where the host
has given away its notes to the last (`Ledger.notes_told_apart`).
-/

namespace Rerun

open Rerun.Action

/-- Notes in a row: the first of them, and how many. -/
structure NoteRange where
  first : Note
  count : Nat
deriving DecidableEq

namespace NoteRange

/-- The note is one of the row. -/
def Has (r : NoteRange) (note : Note) : Prop :=
  r.first.toNat ≤ note.toNat ∧ note.toNat < r.first.toNat + r.count

/-- The rows have no note in common. -/
def Apart (r s : NoteRange) : Prop := ∀ note, ¬(r.Has note ∧ s.Has note)

end NoteRange

namespace Markers

variable {m m' : Markers} {e : Entry} {b : Block} {kind kind' : MarkerKind} {note : Note}

/-! ## Reading markers -/

/-- The notes of a checker. -/
def range (m : Markers) : NoteRange := ⟨m.base, count⟩

/-- The entry carries one of the three notes. -/
def Owns (m : Markers) (e : Entry) : Prop := ∃ note, e.note = some note ∧ m.Covers note

instance (m : Markers) (note : Note) : Decidable (m.Covers note) :=
  inferInstanceAs (Decidable (_ ∧ _))

instance (m : Markers) (e : Entry) : Decidable (m.Owns e) :=
  decidable_of_iff (∃ note ∈ e.note, m.Covers note) (by simp [Owns, Option.mem_def])

theorem exists_offset {n : Nat} (hn : n < count) : ∃ kind : MarkerKind, kind.offset = n := by
  have hcases : n = 0 ∨ n = 1 ∨ n = 2 := by
    rw [count] at hn
    omega
  rcases hcases with rfl | rfl | rfl
  · exact ⟨.instrumented, rfl⟩
  · exact ⟨.plain, rfl⟩
  · exact ⟨.terminator, rfl⟩

theorem covers_label (hm : m.Fits) (kind : MarkerKind) :
    m.Covers (m.base + BitVec.ofNat 64 kind.offset) := by
  have hk := offset_lt kind
  rw [Covers, toNat_label hm]
  omega

/-- Each of the three notes is the note of a kind. -/
theorem exists_label_of_covers (hm : m.Fits) (h : m.Covers note) :
    ∃ kind : MarkerKind, note = m.base + BitVec.ofNat 64 kind.offset := by
  obtain ⟨hlow, hhigh⟩ := h
  have hn : note.toNat - m.base.toNat < count := by omega
  obtain ⟨kind, hkind⟩ := exists_offset hn
  refine ⟨kind, BitVec.eq_of_toNat_eq ?_⟩
  rw [toNat_label hm, hkind]
  omega

theorem label_eq_iff (hm : m.Fits) :
    m.base + BitVec.ofNat 64 kind.offset = m.base + BitVec.ofNat 64 kind'.offset ↔ kind = kind' :=
  ⟨label_injective hm, fun h => by rw [h]⟩

/-- An entry is a marker of the kind whose note it carries. -/
theorem kindOf_cases (hm : m.Fits) (e : Entry) :
    (¬m.Owns e ∧ m.kindOf e = .ok none)
      ∨ ∃ kind, e.note = some (m.base + BitVec.ofNat 64 kind.offset) ∧ m.Owns e
        ∧ m.kindOf e = .ok (some kind) := by
  by_cases he : m.Owns e
  · obtain ⟨note, hnote, hcovers⟩ := he
    obtain ⟨kind, rfl⟩ := exists_label_of_covers hm hcovers
    refine .inr ⟨kind, hnote, ⟨_, hnote, hcovers⟩, ?_⟩
    rw [kindOf, hnote]
    exact kindOfNote_label hm (by cases kind <;> decide)
  · exact .inl ⟨he, kindOf_eq_none hm fun note hnote hcovers => he ⟨note, hnote, hcovers⟩⟩

theorem marks_eq (hm : m.Fits) (e : Entry) (kind : MarkerKind) :
    m.marks e kind = .ok (e.note == some (m.base + BitVec.ofNat 64 kind.offset)) := by
  rw [marks, label_eq hm]
  rfl

/-- Being a marker of a kind and having this kind are the same. -/
theorem marks_iff_kindOf (hm : m.Fits) (e : Entry) (kind : MarkerKind) :
    ∃ answer, m.marks e kind = .ok answer ∧ (answer = true ↔ m.kindOf e = .ok (some kind)) := by
  refine ⟨_, marks_eq hm e kind, ?_⟩
  rw [beq_iff_eq]
  rcases kindOf_cases hm e with ⟨hnot, hkind⟩ | ⟨kind', hnote, -, hkind⟩
  · rw [hkind]
    exact iff_of_false (fun h => hnot ⟨_, h, covers_label hm kind⟩) nofun
  · rw [hkind, hnote, Option.some.injEq, label_eq_iff hm, Except.ok.injEq, Option.some.injEq]

/-- A scan finds the entries with the checker's notes, in their order. -/
theorem scan_finds (hm : m.Fits) (b : Block) : ∃ found, m.scan b = .ok found
    ∧ List.Forall₂ (fun e p => e.id = p.1 ∧ m.kindOf e = .ok (some p.2))
      (b.filter fun e => m.Owns e) found := by
  induction b with
  | nil => exact ⟨[], rfl, .nil⟩
  | cons e rest ih =>
    obtain ⟨found, hscan, hfound⟩ := ih
    rcases kindOf_cases hm e with ⟨hnot, hkind⟩ | ⟨kind, -, howns, hkind⟩
    · refine ⟨found, ?_, ?_⟩
      · rw [scan, hkind]
        exact hscan
      · rwa [List.filter_cons, if_neg (by simpa using hnot)]
    · refine ⟨(e.id, kind) :: found, ?_, ?_⟩
      · rw [scan, hkind, hscan]
        rfl
      · rw [List.filter_cons, if_pos (by simpa using howns)]
        exact .cons ⟨rfl, hkind⟩ hfound

/-- Nobody else's marker is taken for one's own. -/
theorem kindOf_of_note (hm : m.Fits) (hm' : m'.Fits) (h : m ≠ m' → m.range.Apart m'.range)
    (he : e.note = some (m'.base + BitVec.ofNat 64 kind.offset)) :
    m.kindOf e = .ok (if m = m' then some kind else none) := by
  have hcovers := covers_label hm' kind
  rcases kindOf_cases hm e with ⟨hnot, hkind⟩ | ⟨kind', hnote, ⟨note, hnote', howns⟩, hkind⟩
  · rw [hkind, if_neg]
    rintro rfl
    exact hnot ⟨_, he, hcovers⟩
  · obtain rfl := Option.some.inj (hnote'.symm.trans he)
    obtain rfl : m = m' := Classical.byContradiction fun hne => h hne _ ⟨howns, hcovers⟩
    rw [hkind, if_pos rfl, label_injective hm (Option.some.inj (hnote.symm.trans he))]

end Markers

namespace Host

variable {h h' : Host} {count : Word} {note : Note}

/-- Notes are handed out from the next one on, if there are enough. -/
theorem reserveNotes_eq_some (hr : h.reserveNotes count = (some note, h')) :
    h.HasNotes count ∧ note = h.nextNote
      ∧ h' = { h with nextNote := BitVec.ofNat 64 (h.nextNote.toNat + count.toNat) } := by
  by_cases hn : h.HasNotes count
  · rw [reserveNotes_of_hasNotes hn] at hr
    cases hr
    exact ⟨hn, rfl, rfl⟩
  · rw [reserveNotes_of_not_hasNotes hn] at hr
    cases hr

theorem reserveNotes_eq_none (hr : h.reserveNotes count = (none, h')) :
    ¬h.HasNotes count ∧ h' = h := by
  by_cases hn : h.HasNotes count
  · rw [reserveNotes_of_hasNotes hn] at hr
    cases hr
  · rw [reserveNotes_of_not_hasNotes hn] at hr
    cases hr
    exact ⟨hn, rfl⟩

/-- However many notes are allowed, those handed out before remain below the end. -/
theorem nextNote_le_withNotes (h : Host) (count : Word) :
    h.nextNote.toNat ≤ (h.withNotes count).noteEnd.toNat := by
  have hnext := h.nextNote.isLt
  have hword : Word.count - 1 < 2 ^ 64 := by decide
  have hle : h.nextNote.toNat ≤ Word.count - 1 := Nat.le_sub_one_of_lt hnext
  rw [withNotes, BitVec.toNat_ofNat, Nat.mod_eq_of_lt (by omega)]
  omega

end Host

/-- A host and what it has handed out so far: the rows of notes and, among them, those of markers;
the newest come first. -/
structure Ledger where
  host : Host
  ranges : List NoteRange
  markers : List Markers

namespace Ledger

open Host

variable {h₀ h : Host} {l l' : Ledger} {r : NoteRange} {count : Word} {m : Markers}

/-- What can become of a host that is asked for notes. -/
inductive Reserves (h₀ : Host) : Ledger → Prop
  | start : Reserves h₀ ⟨h₀, [], []⟩
  /-- A row of notes is handed out. -/
  | notes {l : Ledger} {count : Word} {first : Note} {h : Host} (reached : Reserves h₀ l)
      (given : l.host.reserveNotes count = (some first, h)) :
      Reserves h₀ { l with host := h, ranges := ⟨first, count.toNat⟩ :: l.ranges }
  /-- There are too few notes. -/
  | notesRefused {l : Ledger} {count : Word} {h : Host} (reached : Reserves h₀ l)
      (refused : l.host.reserveNotes count = (none, h)) : Reserves h₀ { l with host := h }
  /-- The notes of markers are handed out. -/
  | markers {l : Ledger} {m : Markers} {h : Host} (reached : Reserves h₀ l)
      (given : Markers.reserve.Ends l.host (.ok (.ok m)) h) :
      Reserves h₀ ⟨h, m.range :: l.ranges, m :: l.markers⟩
  /-- There are too few notes for markers. -/
  | markersRefused {l : Ledger} {e : SetupError} {h : Host} (reached : Reserves h₀ l)
      (refused : Markers.reserve.Ends l.host (.ok (.error e)) h) : Reserves h₀ { l with host := h }
  /-- The notes that are left are limited. -/
  | limit {l : Ledger} (reached : Reserves h₀ l) (count : Word) :
      Reserves h₀ { l with host := l.host.withNotes count }
  /-- Something else happens to the host. -/
  | other {l : Ledger} {h : Host} (reached : Reserves h₀ l)
      (next : h.nextNote = l.host.nextNote) (stop : h.noteEnd = l.host.noteEnd) :
      Reserves h₀ { l with host := h }

/-- The rows lie between the first note of all and the next one, and below the end of notes; no two
of them meet, and the markers have rows of their own. -/
structure Tidy (l : Ledger) : Prop where
  low : firstNote.toNat ≤ l.host.nextNote.toNat
  within : ∀ r ∈ l.ranges, firstNote.toNat ≤ r.first.toNat
    ∧ r.first.toNat + r.count ≤ l.host.nextNote.toNat
    ∧ r.first.toNat + r.count ≤ l.host.noteEnd.toNat
  apart : l.ranges.Pairwise NoteRange.Apart
  owned : (l.markers.map Markers.range).Sublist l.ranges

/-- The next notes in a row are apart from all that have been handed out. -/
theorem Tidy.reserve (hl : l.Tidy) (hn : l.host.HasNotes count) {markers : List Markers}
    (howned : (markers.map Markers.range).Sublist (⟨l.host.nextNote, count.toNat⟩ :: l.ranges)) :
    Tidy ⟨{ l.host with
        nextNote := BitVec.ofNat 64 (l.host.nextNote.toNat + count.toNat) },
      ⟨l.host.nextNote, count.toNat⟩ :: l.ranges, markers⟩ := by
  have hnext := toNat_add_of_hasNotes hn
  constructor
  · show _ ≤ (BitVec.ofNat 64 _ : Note).toNat
    rw [hnext]
    exact Nat.le_add_right_of_le hl.low
  · intro r hr
    show _ ∧ _ ≤ (BitVec.ofNat 64 _ : Note).toNat ∧ _ ≤ l.host.noteEnd.toNat
    rw [hnext]
    rcases List.mem_cons.1 hr with rfl | hr
    · exact ⟨hl.low, Nat.le_refl _, hn⟩
    · obtain ⟨hlow, hbelow, hend⟩ := hl.within r hr
      exact ⟨hlow, Nat.le_add_right_of_le hbelow, hend⟩
  · refine List.pairwise_cons.2 ⟨fun r hr note hnote => ?_, hl.apart⟩
    -- the row begins where all the others have ended
    exact Nat.lt_irrefl _ (Nat.lt_of_lt_of_le hnote.2.2
      (Nat.le_trans (hl.within r hr).2.1 hnote.1.1))
  · exact howned

theorem Tidy.congr (hl : l.Tidy) (hnext : h.nextNote = l.host.nextNote)
    (hstop : ∀ r ∈ l.ranges, r.first.toNat + r.count ≤ h.noteEnd.toNat) :
    Tidy { l with host := h } where
  low := hnext ▸ hl.low
  within r hr := ⟨(hl.within r hr).1, hnext ▸ (hl.within r hr).2.1, hstop r hr⟩
  apart := hl.apart
  owned := hl.owned

theorem Tidy.reserves (hnext : h₀.nextNote = firstNote) (hl : Reserves h₀ l) : l.Tidy := by
  induction hl with
  | start => exact ⟨hnext ▸ Nat.le_refl _, nofun, .nil, .slnil⟩
  | notes _ given ih =>
    obtain ⟨hn, rfl, rfl⟩ := reserveNotes_eq_some given
    exact ih.reserve hn (ih.owned.cons _)
  | notesRefused _ refused ih =>
    obtain ⟨-, rfl⟩ := reserveNotes_eq_none refused
    exact ih
  | @markers l m h _ given ih =>
    by_cases hn : l.host.HasNotes (BitVec.ofNat 64 Markers.count)
    · obtain ⟨heq, rfl⟩ := Ends.unique given (Markers.reserve_ends_ok hn)
      cases heq
      exact ih.reserve hn (ih.owned.cons_cons _)
    · cases (Ends.unique given (Markers.reserve_ends_error hn)).1
  | @markersRefused l e h _ refused ih =>
    by_cases hn : l.host.HasNotes (BitVec.ofNat 64 Markers.count)
    · cases (Ends.unique refused (Markers.reserve_ends_ok hn)).1
    · obtain ⟨-, rfl⟩ := Ends.unique refused (Markers.reserve_ends_error hn)
      exact ih
  | limit _ count ih =>
    refine ih.congr rfl fun r hr => ?_
    exact Nat.le_trans (ih.within r hr).2.1 (nextNote_le_withNotes _ count)
  | other _ next stop ih => exact ih.congr next fun r hr => stop ▸ (ih.within r hr).2.2

theorem Tidy.pairwise_markers (hl : l.Tidy) :
    l.markers.Pairwise fun m m' => m.range.Apart m'.range :=
  List.pairwise_map.1 (hl.apart.sublist hl.owned)

theorem Tidy.mem_ranges (hl : l.Tidy) (hm : m ∈ l.markers) : m.range ∈ l.ranges :=
  hl.owned.subset (List.mem_map_of_mem hm)

theorem Tidy.lt_count (hl : l.Tidy) (hm : m ∈ l.markers) :
    m.base.toNat + Markers.count < Word.count :=
  Nat.lt_of_le_of_lt (hl.within _ (hl.mem_ranges hm)).2.2 l.host.noteEnd.isLt

/-- A row of notes is not apart from itself. -/
theorem Tidy.nodup_markers (hl : l.Tidy) : l.markers.Nodup := by
  refine (List.Pairwise.and_mem.1 hl.pairwise_markers).imp ?_
  rintro m m' ⟨-, -, hapart⟩ rfl
  have hpos : 0 < Markers.count := by decide
  have hself : m.range.Has m.base := ⟨Nat.le_refl _, Nat.lt_add_of_pos_right hpos⟩
  exact hapart _ ⟨hself, hself⟩

theorem Tidy.apart_of_ne (hl : l.Tidy) {m m' : Markers} (hm : m ∈ l.markers) (hm' : m' ∈ l.markers)
    (hne : m ≠ m') : m.range.Apart m'.range := by
  have hpairs : l.markers.Pairwise fun m m' => m ≠ m' → m.range.Apart m'.range := by
    refine hl.pairwise_markers.imp ?_
    exact fun h _ => h
  refine hpairs.forall_of_forall_of_flip (fun _ _ hself => absurd rfl hself) ?_ hm hm' hne
  refine hl.pairwise_markers.imp ?_
  exact fun h _ note hnote => h note hnote.symm

/-- Markers are told from all other entries, and from the markers of a list. -/
structure Tells (m : Markers) (others : List Markers) : Prop where
  /-- Neither a note of a marker nor the end of the row is beyond the last word. -/
  fits : m.base.toNat + Markers.count < Word.count
  label : ∀ kind, ∃ note, m.label kind = .ok note ∧ note.toNat = m.base.toNat + kind.offset
  /-- A new marker carries the note of its kind. -/
  marker : ∀ kind d, ∃ e d', (m.marker kind).Ends d (.ok e) d' ∧ e.isLabel
    ∧ ∃ note, m.label kind = .ok note ∧ e.note = some note
  kindOf : ∀ m' ∈ others, ∀ kind note, m'.label kind = .ok note → ∀ e, e.note = some note →
    m.kindOf e = .ok (if m = m' then some kind else none)
  marks : ∀ e kind, ∃ answer, m.marks e kind = .ok answer
    ∧ (answer = true ↔ m.kindOf e = .ok (some kind))
  /-- All entries that carry one of the notes are found, in their order and with their kinds. -/
  scan : ∀ b : Block, ∃ found, m.scan b = .ok found
    ∧ List.Forall₂ (fun e p => e.id = p.1 ∧ m.kindOf e = .ok (some p.2))
      (b.filter fun e => m.Owns e) found

theorem Tidy.tells (hl : l.Tidy) (hm : m ∈ l.markers) : Tells m l.markers := by
  have hfits : ∀ m ∈ l.markers, m.Fits := fun m hm => Nat.le_of_lt (hl.lt_count hm)
  have hmfits := hfits m hm
  constructor
  · exact hl.lt_count hm
  · exact fun kind => ⟨_, Markers.label_eq hmfits kind, Markers.toNat_label hmfits kind⟩
  · intro kind d
    exact ⟨m.entry kind d.nextId, { d with nextId := d.nextId + 1 },
      ends_of_eq (Markers.marker_apply hmfits kind d), rfl, _, Markers.label_eq hmfits kind, rfl⟩
  · intro m' hm' kind note hnote e he
    rw [Markers.label_eq (hfits m' hm')] at hnote
    obtain rfl := Except.ok.inj hnote
    exact Markers.kindOf_of_note hmfits (hfits m' hm') (hl.apart_of_ne hm hm') he
  · exact fun e kind => Markers.marks_iff_kindOf hmfits e kind
  · exact fun b => Markers.scan_finds hmfits b

/-- Rows of notes that have been handed out do not meet, lie between the first note of all and the
host's end of notes, and are refused only if there are too few left, which changes nothing. Markers
that have their notes from the host are all different, and each is told from everything else,
without a sum that leaves the range of words. -/
theorem notes_told_apart (hnext : h₀.nextNote = firstNote) (hl : Reserves h₀ l) :
    l.ranges.Pairwise NoteRange.Apart
    ∧ (∀ r ∈ l.ranges, firstNote.toNat ≤ r.first.toNat
      ∧ r.first.toNat + r.count ≤ l.host.noteEnd.toNat)
    ∧ (∀ count, ((l.host.reserveNotes count).1 = none ↔ ¬l.host.HasNotes count)
      ∧ ((l.host.reserveNotes count).1 = none → (l.host.reserveNotes count).2 = l.host))
    ∧ (l.host.HasNotes (BitVec.ofNat 64 Markers.count) → ∃ h,
      Markers.reserve.Ends l.host (.ok (.ok ⟨l.host.nextNote⟩)) h)
    ∧ (¬l.host.HasNotes (BitVec.ofNat 64 Markers.count) →
      Markers.reserve.Ends l.host (.ok (.error (.notesExhausted Markers.count))) l.host)
    ∧ l.markers.Nodup ∧ ∀ m ∈ l.markers, m.range ∈ l.ranges ∧ Tells m l.markers := by
  have htidy := Tidy.reserves hnext hl
  refine ⟨htidy.apart, fun r hr => ?_, fun count => ?_, fun hn => ⟨_, Markers.reserve_ends_ok hn⟩,
    fun hn => Markers.reserve_ends_error hn, htidy.nodup_markers,
    fun m hm => ⟨htidy.mem_ranges hm, htidy.tells hm⟩⟩
  · exact ⟨(htidy.within r hr).1, (htidy.within r hr).2.2⟩
  · by_cases hn : l.host.HasNotes count
    · rw [reserveNotes_of_hasNotes hn]
      exact ⟨iff_of_false nofun (not_not_intro hn), nofun⟩
    · rw [reserveNotes_of_not_hasNotes hn]
      exact ⟨iff_of_true rfl hn, fun _ => rfl⟩

/-- All but the last six notes are handed out, and then these six to two checkers. -/
def exhausted : Ledger where
  host := { Host.new with nextNote := BitVec.allOnes 64 }
  ranges := [⟨0xfffffffffffffffc, 3⟩, ⟨0xfffffffffffffff9, 3⟩, ⟨0x1000, 0xffffffffffffeff9⟩]
  markers := [⟨0xfffffffffffffffc⟩, ⟨0xfffffffffffffff9⟩]

theorem reserves_exhausted : Reserves Host.new exhausted := by
  have h₀ : Host.new.HasNotes 0xffffffffffffeff9 := by unfold HasNotes; decide
  have h₁ : HasNotes { Host.new with nextNote := 0xfffffffffffffff9 } 3 := by
    unfold HasNotes; decide
  have h₂ : HasNotes { Host.new with nextNote := 0xfffffffffffffffc } 3 := by
    unfold HasNotes; decide
  exact .markers (.markers (.notes .start (reserveNotes_of_hasNotes h₀))
    (Markers.reserve_ends_ok h₁)) (Markers.reserve_ends_ok h₂)

theorem notes_told_apart_exhausted :
    Markers.kindOf ⟨0xfffffffffffffff9⟩ ⟨0, .label, false, some 0xfffffffffffffffe⟩ = .ok none
    ∧ Markers.kindOf ⟨0xfffffffffffffffc⟩ ⟨0, .label, false, some 0xfffffffffffffffe⟩
      = .ok (some .terminator) := by
  obtain ⟨-, -, -, -, -, -, htells⟩ := notes_told_apart rfl reserves_exhausted
  have hlast : Markers.label ⟨0xfffffffffffffffc⟩ .terminator = .ok 0xfffffffffffffffe := by decide
  have hmem : (⟨0xfffffffffffffffc⟩ : Markers) ∈ exhausted.markers := List.mem_cons_self
  have hmem' : (⟨0xfffffffffffffff9⟩ : Markers) ∈ exhausted.markers :=
    List.mem_cons_of_mem _ List.mem_cons_self
  exact ⟨(htells _ hmem').2.kindOf _ hmem _ _ hlast _ rfl,
    (htells _ hmem).2.kindOf _ hmem _ _ hlast _ rfl⟩

end Ledger
end Rerun
