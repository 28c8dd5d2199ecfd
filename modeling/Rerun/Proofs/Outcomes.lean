import Rerun.Command.Report
import Rerun.Proofs.Trials

/-!
# How the command ends

Once the machine code is read and the tool is known, the command comes to its runs, and each run is
a trial of the program from the registers of its seed. So all runs pass, or the first that does not
decides: with a mismatch the command reports its seed, and with a refusal it gives up, which can
only be in the first run (`run_law`). It never ends with a fault.
-/

namespace Rerun

open Rerun.Action

theorem Markers.exists_kindOf {m : Markers} (hm : m.Fits) (e : Entry) :
    ∃ kind?, m.kindOf e = .ok kind? := by
  rw [kindOf]
  cases e.note with
  | none => exact ⟨none, rfl⟩
  | some note =>
    show ∃ kind?, m.kindOfNote note MarkerKind.all = .ok kind?
    generalize MarkerKind.all = kinds
    induction kinds with
    | nil => exact ⟨none, rfl⟩
    | cons kind rest ih =>
      rw [kindOfNote_cons hm]
      split
      · exact ⟨some kind, rfl⟩
      · exact ih

theorem Checker.exists_describe {c : Checker} (hm : c.markers.Fits) (b : Block) :
    ∃ listing, c.describe b = .ok listing := by
  induction b with
  | nil => exact ⟨_, rfl⟩
  | cons e rest ih =>
    obtain ⟨kind?, hkind⟩ := Markers.exists_kindOf hm e
    obtain ⟨listing, hlisting⟩ := ih
    rw [describe, hkind, hlisting]
    exact ⟨_, rfl⟩

namespace Command

open Console Host

variable {o : Options} {decoder : Decoder} {is : List X64.Instruction} {tool : Option Clobber}
  {c c' : Console} {n k count : Nat}

/-! ## The console -/

namespace Console

theorem onHost_ends {α : Type} {x : Action Host α} {r : Except Fault α} {h : Host}
    (hx : x.Ends c.host r h) : (onHost x).Ends c r { c with host := h } := by
  obtain ⟨hr, rfl⟩ := hx
  exact ⟨hr, rfl⟩

theorem build_ends {x : Action Draft Unit} {d : Draft} (hx : x.Ends ⟨[], c.nextId⟩ (.ok ()) d) :
    (Console.build x).Ends c (.ok d.block) { c with nextId := d.nextId } := by
  obtain ⟨hr, rfl⟩ := hx
  refine ⟨?_, rfl⟩
  show (x ⟨[], c.nextId⟩).result.map _ = _
  rw [hr]
  rfl

theorem attempt_ends {b : Block} {t t' : Thread} {r : Except Fault Ending}
    (hrun : (Thread.execute b).Ends t r t') (c : Console) :
    (attempt b t).Ends c (.ok (r, t')) c := by
  obtain ⟨rfl, rfl⟩ := hrun
  exact ⟨rfl, rfl⟩

theorem print_ends (text : String) (c : Console) :
    (print text).Ends c (.ok ()) { c with printed := c.printed ++ text } := ends_modify _ _

end Console

/-! ## One run -/

/-- Control has left the block. -/
def Passed (r : Except Fault Ending) : Prop := ∃ exit, r = .ok (.exit exit)

/-- A run has come to one of the ends that are foreseen. -/
def Ordinary (r : Except Fault Ending) : Prop :=
  Passed r ∨ (∃ m, r = .error (.mismatch m)) ∨ ∃ e, r = .ok (.refused e)

/-- What the result of a trial is to the command. -/
def RunEnd.ofResult : Except Fault Ending → RunEnd
  | .ok (.exit _) => .passed
  | .ok (.refused e) => .failed e
  | .error _ => .mismatch

/-- What is printed about the result of a run. -/
def resultLine (o : Options) (n : Nat) : Except Fault Ending → String
  | .error (.mismatch m) =>
    "seed " ++ toString (o.seed + BitVec.ofNat 64 n).toNat ++ ": " ++ m.message ++ "\n"
  | _ => ""

theorem ends_listed {α : Type} {p : Prop} [Decidable p] {x : Except Fault String}
    {listing : String} (hx : x = .ok listing) {f : Unit → Action Console α} {r : Except Fault α}
    (hf : (f ()).Ends { c with printed := c.printed ++ if p then listing else "" } r c') :
    (if p then do f (← print (← Action.ofExcept x)) else f ()).Ends c r c' := by
  split
  · next hp =>
    rw [if_pos hp] at hf
    rw [hx]
    exact (ends_pure listing c).bind ((print_ends listing c).bind hf)
  · next hp =>
    rw [if_neg hp, String.append_empty] at hf
    exact hf

/-- The listing of a program that the clients of a prepared host have changed for a thread with
these registers. The thread has the number `k`, and the identities begin at `n`. -/
def Lists (tool : Option Clobber) (is : List X64.Instruction) (file : RegisterFile) (k n : Nat)
    (listing : String) : Prop :=
  ∃ t d, (spawn .x64).Ends (preparedFor tool k) (.ok t) (preparedFor tool (k + 1))
    ∧ ((preparedFor tool (k + 1)).build (t.setRegisters file) is).Ends ⟨[], n⟩ (.ok ()) d
    ∧ Checker.first.describe d.block = .ok listing

/-- A run of the command is a trial. The first one also lists the block. -/
theorem runOnce_ends {r : Except Fault Ending}
    (htried : Tried tool is (.random .x64 (o.seed + BitVec.ofNat 64 n)) r k c.nextId)
    (hr : Ordinary r) (hc : c.host = preparedFor tool k) :
    ∃ listing next, Lists tool is (.random .x64 (o.seed + BitVec.ofNat 64 n)) k c.nextId listing
      ∧ (runOnce o is .first n).Ends c (.ok (.ofResult r)) ⟨preparedFor tool (k + 1), next,
          c.printed ++ (if n = 0 then listing else "") ++ resultLine o n r⟩ := by
  obtain ⟨t, d, t', t'', hspawn, hbuild, hrun, hexit⟩ := htried
  obtain ⟨listing, hlisting⟩ := Checker.exists_describe Checker.registered_first.fits d.block
  refine ⟨listing, d.nextId, ⟨t, d, hspawn, hbuild, hlisting⟩, ?_⟩
  rw [runOnce]
  refine (onHost_ends (hc ▸ hspawn)).bind ((ends_get _).bind ?_)
  refine (build_ends (c := ⟨preparedFor tool (k + 1), c.nextId, c.printed⟩) hbuild).bind ?_
  refine ends_listed hlisting ((attempt_ends hrun _).bind ?_)
  rcases hr with ⟨exit, rfl⟩ | ⟨m, rfl⟩ | ⟨e, rfl⟩
  · rw [resultLine, String.append_empty]
    · exact (ends_say _ _ _ _).bind ((hexit.on _).bind (ends_pure _ _))
    · nofun
  · exact (print_ends _ _).bind (ends_pure _ _)
  · rw [resultLine, String.append_empty]
    · exact ends_pure _ _
    · nofun

/-! ## All runs -/

theorem runFrom_next {r : Except Fault RunEnd} {c₁ : Console}
    (hfirst : (runOnce o is .first n).Ends c (.ok .passed) c₁)
    (hrest : (runFrom o is .first (n + 1) count).Ends c₁ r c') :
    (runFrom o is .first n (count + 1)).Ends c r c' := by
  rw [runFrom]
  exact hfirst.bind hrest

theorem runFrom_stop {e : RunEnd} (hfirst : (runOnce o is .first n).Ends c (.ok e) c')
    (he : e ≠ .passed) : (runFrom o is .first n (count + 1)).Ends c (.ok e) c' := by
  rw [runFrom]
  refine hfirst.bind ?_
  cases e with
  | passed => exact absurd rfl he
  | mismatch => exact ends_pure _ _
  | failed e => exact ends_pure _ _

section Runs

variable {r : Nat → Except Fault Ending}
  (htried : ∀ n k i, Tried tool is (.random .x64 (o.seed + BitVec.ofNat 64 n)) (r n) k i)
  (hr : ∀ n, Ordinary (r n))

include htried hr

/-- The first run that does not pass decides. -/
theorem runFrom_cases (count : Nat) (hc : c.host = preparedFor tool k) :
    ∃ shown c' k', c'.host = preparedFor tool k'
      ∧ (n = 0 → 0 < count → Lists tool is (.random .x64 o.seed) k c.nextId shown)
      ∧ (n ≠ 0 → shown = "")
      ∧ ((∀ j, n ≤ j → j < n + count → Passed (r j))
          ∧ (runFrom o is .first n count).Ends c (.ok .passed) c' ∧ c'.printed = c.printed ++ shown
        ∨ ∃ j, n ≤ j ∧ j < n + count ∧ (∀ i, n ≤ i → i < j → Passed (r i)) ∧ ¬Passed (r j)
          ∧ (runFrom o is .first n count).Ends c (.ok (.ofResult (r j))) c'
          ∧ c'.printed = c.printed ++ shown ++ resultLine o j (r j)) := by
  -- a run that passes leaves a console like the one it found, with the next thread's number
  induction count generalizing n k c with
  | zero =>
    refine ⟨"", c, k, hc, by omega, fun _ => rfl, .inl ⟨by omega, ends_pure _ _, ?_⟩⟩
    rw [String.append_empty]
  | succ count ih =>
    obtain ⟨listing, next, hlisting, hfirst⟩ := runOnce_ends (htried n k c.nextId) (hr n) hc
    have hlists : n = 0 → 0 < count + 1 →
        Lists tool is (.random .x64 o.seed) k c.nextId (if n = 0 then listing else "") := by
      rintro rfl -
      rw [BitVec.add_zero] at hlisting
      exact hlisting
    by_cases hpass : Passed (r n)
    · obtain ⟨exit, hexit⟩ := hpass
      have hline : resultLine o n (r n) = "" := by rw [hexit, resultLine]; nofun
      rw [hline, String.append_empty, hexit] at hfirst
      obtain ⟨shown, c', k', hhost, -, hshown, hrest⟩ :=
        ih (n := n + 1) (c := ⟨preparedFor tool (k + 1), next, _⟩) rfl
      rw [hshown (Nat.succ_ne_zero n), String.append_empty] at hrest
      refine ⟨_, c', k', hhost, hlists, fun hn => if_neg hn, ?_⟩
      have hnext : ∀ j, n ≤ j → Passed (r j) ∨ n + 1 ≤ j := by
        intro j hj
        rcases Nat.eq_or_lt_of_le hj with rfl | hj
        · exact .inl ⟨exit, hexit⟩
        · exact .inr hj
      rcases hrest with ⟨hall, hends, hprinted⟩ | ⟨j, hj, hlt, hall, hnot, hends, hprinted⟩
      · refine .inl ⟨fun j hj hlt => ?_, runFrom_next hfirst hends, hprinted⟩
        exact (hnext j hj).elim id fun hj => hall j hj (by omega)
      · refine .inr ⟨j, by omega, by omega, fun i hi hij => ?_, hnot, runFrom_next hfirst hends,
          hprinted⟩
        exact (hnext i hi).elim id fun hi => hall i hi hij
    · refine ⟨_, _, k + 1, rfl, hlists, fun hn => if_neg hn, .inr ⟨n, Nat.le_refl n, by omega,
        fun i hi hin => absurd hi (by omega), hpass, runFrom_stop hfirst ?_, rfl⟩⟩
      rcases (hr n).resolve_left hpass with ⟨m, hrn⟩ | ⟨e, hrn⟩
      · rw [hrn]
        nofun
      · rw [hrn]
        nofun

end Runs

/-! ## The command -/

/-- The exit code after the last run. -/
def RunEnd.code : RunEnd → Nat
  | .passed => 0
  | .mismatch => 1
  | .failed _ => 2

/-- What the command makes of its last run. -/
def RunEnd.outcome : RunEnd → Except Failure Bool
  | .passed => .ok true
  | .mismatch => .ok false
  | .failed e => .error (.emulation e)

theorem decode_ends {bytes : List Byte} {used : Nat} (hcode : readCode o.hex = .ok bytes)
    (hblock : firstBlock (decoder bytes o.address) = .ok (is, used)) (c : Console) :
    (decode o decoder).Ends c (.ok (.ok is)) c := by
  rw [decode, hcode]
  dsimp only
  rw [hblock]
  dsimp only
  split
  · exact (ends_say _ _ _ _).bind (ends_pure _ _)
  · exact ends_pure _ _

theorem announce_ends (is : List X64.Instruction) (c : Console) :
    (announce is).Ends c (.ok ())
      ⟨c.host, c.nextId + is.length, (announce is c).state.printed⟩ := by
  have hbuild : (do Draft.setBlock (← Draft.appAll is) : Action Draft Unit).Ends ⟨[], c.nextId⟩
      (.ok ()) (.ofProgram c.nextId is) := by
    have hentries : (Draft.appAll is).Ends ⟨[], c.nextId⟩
        (.ok ((Block.program is).renumber c.nextId)) ⟨[], c.nextId + is.length⟩ :=
      ends_of_eq (Draft.appAll_apply ..)
    exact hentries.bind (ends_modify _ _)
  obtain ⟨text, hends⟩ : ∃ text,
      (announce is).Ends c (.ok ()) ⟨c.host, c.nextId + is.length, text⟩ :=
    ⟨_, (build_ends hbuild).bind (print_ends _ _)⟩
  rw [hends.2]
  exact hends

theorem addClobber_ends (htool : o.clobber.map Clobber.ofField? = tool.map some)
    (hc : c.host = .new) :
    (addClobber o).Ends c (.ok (.ok ())) { c with host := withTool tool } := by
  rcases c with ⟨h, i, p⟩
  obtain rfl : h = .new := hc
  rw [addClobber]
  cases hfield : o.clobber with
  | none =>
    cases tool with
    | none => exact ends_pure _ _
    | some tool =>
      rw [hfield] at htool
      cases htool
  | some field =>
    rw [hfield] at htool
    cases tool with
    | none => cases htool
    | some tool =>
      have hof : Clobber.ofField? field = some tool := Option.some.inj htool
      have hadd : Host.new.addClient tool.registration = (true, withTool (some tool)) := rfl
      dsimp only
      rw [hof]
      refine (onHost_ends (c := ⟨.new, i, p⟩) (ends_modifyGet hadd)).bind ?_
      exact ends_pure _ _

theorem deactivate_prepared (tool : Option Clobber) (k : Nat) :
    ∃ a h, (Activation.mk (.new .x64) 1 (some .first)).deactivate.Ends (preparedFor tool k)
      (.ok (.success, a)) h := by
  have hclient : Checker.first.registration ∈ (preparedFor tool k).clients := by
    show _ ∈ (prepared tool).clients
    simp [clients_prepared]
  have hslot : Checker.first.slot ∈ (preparedFor tool k).taken := by
    show _ ∈ (prepared tool).taken
    rw [prepared_eq]
    exact List.mem_cons_self
  exact ⟨_, _, Activation.deactivate_ends_ok rfl rfl (Checker.unregister_ends_ok hclient hslot)⟩

theorem check_ends {e : RunEnd} (htool : o.clobber.map Clobber.ofField? = tool.map some)
    (hc : c.host = .new)
    (hruns : (runFrom o is .first 0 o.runs).Ends { c with host := prepared tool } (.ok e) c')
    (hc' : c'.host = preparedFor tool k) :
    ∃ c'', (check o is).Ends c (.ok e.outcome) c'' ∧ c''.printed = c'.printed := by
  obtain ⟨a, h, hdown⟩ := deactivate_prepared tool k
  have hhost : (Activation.mk (.new .x64) 1 (some .first)).deactivate.Ends c'.host
      (.ok (.success, a)) h := hc' ▸ hdown
  have hadd := addClobber_ends (c := c) htool hc
  have hactivate :=
    onHost_ends (c := { c with host := withTool tool }) (activate_withTool tool)
  have hlast := onHost_ends hhost
  cases e with
  | failed e =>
    exact ⟨c', hadd.bind (hactivate.bind (hruns.bind (ends_pure _ _))), rfl⟩
  | passed =>
    exact ⟨_, hadd.bind (hactivate.bind (hruns.bind (hlast.bind (ends_pure _ _)))), rfl⟩
  | mismatch =>
    exact ⟨_, hadd.bind (hactivate.bind (hruns.bind (hlast.bind (ends_pure _ _)))), rfl⟩

/-- What is printed before the runs are over: whether the block can be checked, and the listing. -/
def Heads (o : Options) (tool : Option Clobber) (is : List X64.Instruction)
    (head : String) : Prop :=
  ∃ listing, Lists tool is (.random .x64 o.seed) 1 is.length listing
    ∧ head = (announce is .new).state.printed ++ listing

/-- The results of the runs. A refusal is the same for all registers, so if the first run passes, no
run is refused. -/
theorem exists_results (is : List X64.Instruction)
    (htool : o.clobber.map Clobber.ofField? = tool.map some) :
    ∃ r : Nat → Except Fault Ending,
      (∀ n k i, Tried tool is (.random .x64 (o.seed + BitVec.ofNat 64 n)) (r n) k i)
      ∧ (∀ n, Ordinary (r n)) ∧ (o.clobber = none → ∀ n m, r n ≠ .error (.mismatch m))
      ∧ ∀ n e, r n = .ok (.refused e) → (∀ j < n, Passed (r j)) → n = 0 := by
  obtain ⟨ending, hends⟩ := exists_ending tool is
  choose r hr hplain htried using
    fun n => hends (.random .x64 (o.seed + BitVec.ofNat 64 n))
  refine ⟨r, htried, fun n => ?_, fun hnone n m hm => ?_, fun n e hn hall => ?_⟩
  · rcases hr n with h | h
    · rcases ending with exit | e
      · exact .inl ⟨exit, h⟩
      · exact .inr (.inr ⟨e, h⟩)
    · exact .inr (.inl h)
  · rw [hnone] at htool
    have htool' : tool = none := by cases tool <;> trivial
    cases (hplain n htool').symm.trans hm
  · by_contra hne
    obtain ⟨exit, hexit⟩ := hall 0 (by omega)
    obtain rfl : ending = .refused e := by
      rcases hr n with h | ⟨m, h⟩ <;> rw [hn] at h <;> cases h
      rfl
    rcases hr 0 with h | ⟨m, h⟩ <;> rw [hexit] at h <;> cases h

/-- How the command ends if its runs come to these results, and the last line that it prints. -/
inductive Verdict (o : Options) (r : Nat → Except Fault Ending) : RunEnd → String → Prop
  /-- All runs pass. -/
  | passed (all : ∀ n < o.runs, Passed (r n)) : Verdict o r .passed ""
  /-- A run finds a mismatch when all before it have passed. -/
  | mismatch {n : Nat} {m : Mismatch} (lt : n < o.runs) (found : r n = .error (.mismatch m))
      (before : ∀ j < n, Passed (r j)) : Verdict o r .mismatch (resultLine o n (r n))
  /-- The first run is refused. -/
  | failed {e : X64.EmulationError} (refused : r 0 = .ok (.refused e)) : Verdict o r (.failed e) ""

section Verdicts

variable {r : Nat → Except Fault Ending} {e e' : RunEnd} {line line' : String}

theorem not_passed_mismatch {m : Mismatch} (h : r n = .error (.mismatch m)) : ¬Passed (r n) := by
  rw [h]
  nofun

theorem not_passed_refused {x : X64.EmulationError} (h : r n = .ok (.refused x)) :
    ¬Passed (r n) := by
  rw [h]
  rintro ⟨_, ⟨⟩⟩

/-- There is one first run that does not pass. -/
theorem first_unique {i j : Nat} (hi : ¬Passed (r i)) (hj : ¬Passed (r j))
    (hi' : ∀ l < i, Passed (r l)) (hj' : ∀ l < j, Passed (r l)) : i = j := by
  rcases Nat.lt_trichotomy i j with h | h | h
  · exact absurd (hj' i h) hi
  · exact h
  · exact absurd (hi' j h) hj

/-- Whatever ends the runs, it is the first of them that does not pass. -/
theorem Verdict.first (h : Verdict o r e line) (hcount : 0 < o.runs) (he : e ≠ .passed) :
    ∃ n < o.runs, (∀ j < n, Passed (r j)) ∧ ¬Passed (r n) ∧ e = .ofResult (r n)
      ∧ line = resultLine o n (r n) := by
  cases h with
  | passed all => exact absurd rfl he
  | mismatch lt found before =>
    exact ⟨_, lt, before, not_passed_mismatch found, by rw [found]; rfl, rfl⟩
  | failed refused =>
    refine ⟨0, hcount, by omega, not_passed_refused refused, by rw [refused]; rfl, ?_⟩
    rw [refused, resultLine]
    nofun

theorem Verdict.unique (h : Verdict o r e line) (h' : Verdict o r e' line') (hcount : 0 < o.runs) :
    e = e' ∧ line = line' := by
  have hpassed : ∀ {e line}, Verdict o r e line → (∀ n < o.runs, Passed (r n)) →
      e = .passed ∧ line = "" := by
    intro e line h hall
    by_cases he : e = .passed
    · subst he
      cases h
      exact ⟨rfl, rfl⟩
    · obtain ⟨n, hn, -, hnot, -⟩ := h.first hcount he
      exact absurd (hall n hn) hnot
  by_cases he : e = .passed
  · subst he
    obtain ⟨all⟩ := h
    exact (hpassed h' all).imp Eq.symm Eq.symm
  by_cases he' : e' = .passed
  · subst he'
    obtain ⟨all⟩ := h'
    exact hpassed h all
  obtain ⟨n, -, hall, hnot, rfl, rfl⟩ := h.first hcount he
  obtain ⟨n', -, hall', hnot', rfl, rfl⟩ := h'.first hcount he'
  rw [first_unique hnot hnot' hall hall']
  exact ⟨rfl, rfl⟩

theorem Verdict.code_eq_zero_iff (h : Verdict o r e line) (hcount : 0 < o.runs) :
    e.code = 0 ↔ ∀ n < o.runs, Passed (r n) := by
  constructor
  · intro hcode
    cases h with
    | passed all => exact all
    | mismatch => cases hcode
    | failed => cases hcode
  · intro hall
    rw [(h.unique (.passed hall) hcount).1]
    rfl

theorem Verdict.code_eq_one_iff (h : Verdict o r e line) (hcount : 0 < o.runs) :
    e.code = 1 ↔ ∃ n < o.runs, (∃ m, r n = .error (.mismatch m)) ∧ ∀ j < n, Passed (r j) := by
  constructor
  · intro hcode
    cases h with
    | passed => cases hcode
    | mismatch lt found before => exact ⟨_, lt, ⟨_, found⟩, before⟩
    | failed => cases hcode
  · rintro ⟨n, hn, ⟨m, hm⟩, hall⟩
    rw [(h.unique (.mismatch hn hm hall) hcount).1]
    rfl

theorem Verdict.code_eq_two_iff (h : Verdict o r e line) (hcount : 0 < o.runs) :
    e.code = 2 ↔ ∃ x, r 0 = .ok (.refused x) := by
  constructor
  · intro hcode
    cases h with
    | passed => cases hcode
    | mismatch => cases hcode
    | failed refused => exact ⟨_, refused⟩
  · rintro ⟨x, hx⟩
    rw [(h.unique (.failed hx) hcount).1]
    rfl

theorem Verdict.line_eq_empty (h : Verdict o r e line) (hcode : e.code ≠ 1) : line = "" := by
  cases h with
  | passed => rfl
  | mismatch => exact absurd rfl hcode
  | failed => rfl

theorem Verdict.refused_of_outcome {failure : Failure} (h : Verdict o r e line)
    (ho : e.outcome = .error failure) :
    ∃ x, failure = .emulation x ∧ r 0 = .ok (.refused x) := by
  cases h with
  | passed => cases ho
  | mismatch => cases ho
  | failed refused =>
    cases ho
    exact ⟨_, rfl, refused⟩

end Verdicts

/-- The command comes to its runs, and ends as these say. -/
theorem run_verdict {bytes : List Byte} {used : Nat} {r : Nat → Except Fault Ending}
    (hcode : readCode o.hex = .ok bytes)
    (hblock : firstBlock (decoder bytes o.address) = .ok (is, used)) (hcount : 0 < o.runs)
    (htool : o.clobber.map Clobber.ofField? = tool.map some)
    (htried : ∀ n k i, Tried tool is (.random .x64 (o.seed + BitVec.ofNat 64 n)) (r n) k i)
    (hr : ∀ n, Ordinary (r n))
    (hfirst : ∀ n e, r n = .ok (.refused e) → (∀ j < n, Passed (r j)) → n = 0) :
    ∃ head e line c', Heads o tool is head ∧ Verdict o r e line
      ∧ (run o decoder).Ends .new (.ok e.outcome) c' ∧ c'.printed = head ++ line := by
  let c : Console := ⟨.new, is.length, (announce is .new).state.printed⟩
  have hannounce : (announce is).Ends .new (.ok ()) c := by
    have hends := announce_ends is .new
    rwa [show Console.new.nextId + is.length = is.length from Nat.zero_add _] at hends
  have hhost : prepared tool = preparedFor tool 1 := by
    rw [preparedFor, prepared_eq]
    cases tool <;> rfl
  obtain ⟨listing, c₁, k, hc₁, hlists, -, hruns⟩ :=
    runFrom_cases (n := 0) (c := { c with host := prepared tool }) htried hr o.runs hhost
  have hhead : Heads o tool is (c.printed ++ listing) := ⟨listing, hlists rfl hcount, rfl⟩
  suffices hverdict : ∃ e line, Verdict o r e line
      ∧ (runFrom o is .first 0 o.runs).Ends { c with host := prepared tool } (.ok e) c₁
      ∧ c₁.printed = c.printed ++ listing ++ line by
    obtain ⟨e, line, hverdict, hends, hprinted⟩ := hverdict
    obtain ⟨c', hcheck, hc'⟩ := check_ends htool rfl hends hc₁
    exact ⟨_, e, line, c', hhead, hverdict,
      (decode_ends hcode hblock _).bind (hannounce.bind hcheck), hc'.trans hprinted⟩
  rcases hruns with ⟨hall, hends, hprinted⟩ | ⟨j, -, hlt, hall, hnot, hends, hprinted⟩
  · refine ⟨.passed, "", .passed fun n hn => hall n (Nat.zero_le n) (by omega), hends, ?_⟩
    rw [hprinted, String.append_empty]
  · have hbefore : ∀ i < j, Passed (r i) := fun i hi => hall i (Nat.zero_le i) hi
    rcases (hr j).resolve_left hnot with ⟨m, hm⟩ | ⟨e, he⟩
    · rw [hm] at hends
      exact ⟨.mismatch, _, .mismatch (by omega) hm hbefore, hends, hprinted⟩
    · obtain rfl := hfirst j e he hbefore
      rw [he] at hends hprinted
      exact ⟨.failed e, "", .failed he, hends, hprinted⟩

theorem code_ofOutcome {outcome : Outcome Console (Except Failure Bool)} {e : RunEnd}
    (h : outcome.result = .ok e.outcome) : (Report.ofOutcome o outcome).code = e.code := by
  unfold Report.ofOutcome
  cases e <;> rw [h] <;> rfl

theorem toNat_seed (seed : Word) (n : Nat) :
    (seed + BitVec.ofNat 64 n).toNat = (seed.toNat + n) % 2 ^ 64 := by
  rw [BitVec.toNat_add, BitVec.toNat_ofNat, Nat.add_mod_mod]

/-- The outcome law. Let the machine code be readable, all its instructions up to the end of the
block be valid, and the tool, if one is asked for, be known. Then the command never ends with a
fault. It reports success if and only if all runs pass, and a mismatch if and only if some run
finds one after all runs before it have passed; the seed reported is that run's. It gives up if and
only if the first run is refused, and a later run that comes about never is. Without a tool there is
no mismatch. -/
theorem run_law {bytes : List Byte} {used : Nat} (hcode : readCode o.hex = .ok bytes)
    (hblock : firstBlock (decoder bytes o.address) = .ok (is, used)) (hcount : 0 < o.runs)
    (htool : o.clobber.map Clobber.ofField? = tool.map some) :
    let trial n r := (prepared tool).Trial is (.random .x64 (o.seed + BitVec.ofNat 64 n)) r
    let passes n := ∃ exit, trial n (.ok (.exit exit))
    let outcome := run o decoder .new
    let report := Report.ofOutcome o outcome
    (∀ n, passes n ∨ (∃ m, trial n (.error (.mismatch m))) ∨ ∃ e, trial n (.ok (.refused e)))
    ∧ (report.code = 0 ∨ report.code = 1 ∨ report.code = 2)
    ∧ (o.clobber = none → report.code ≠ 1)
    ∧ (report.code = 0 ↔ ∀ n < o.runs, passes n)
    ∧ (report.code = 1 ↔ ∃ n < o.runs, (∃ m, trial n (.error (.mismatch m))) ∧ ∀ j < n, passes j)
    ∧ (report.code = 2 ↔ ∃ e, trial 0 (.ok (.refused e)))
    ∧ (∀ failure, outcome.result = .ok (.error failure) →
      ∃ e, failure = .emulation e ∧ trial 0 (.ok (.refused e)))
    ∧ (∀ n e, trial n (.ok (.refused e)) → (∀ j < n, passes j) → n = 0)
    ∧ ∃ head, Heads o tool is head ∧ (report.code ≠ 1 → outcome.state.printed = head)
      ∧ ∀ n < o.runs, ∀ m, trial n (.error (.mismatch m)) → (∀ j < n, passes j) →
        outcome.state.printed = head ++ ("seed " ++ toString ((o.seed.toNat + n) % 2 ^ 64) ++ ": "
          ++ m.message ++ "\n") := by
  intro trial passes outcome report
  obtain ⟨r, htried, hkind, hplain, hfirst⟩ := exists_results is htool
  have htrial : ∀ n x, trial n x ↔ r n = x := fun n x =>
    ⟨fun h => (trial_of_tried (htried n)).unique h, fun h => h ▸ trial_of_tried (htried n)⟩
  have hpasses : ∀ n, passes n ↔ Passed (r n) := fun n => exists_congr fun exit => htrial n _
  simp only [htrial, hpasses]
  obtain ⟨head, e, line, c', hhead, hverdict, hrun, hprinted⟩ :=
    run_verdict hcode hblock hcount htool htried hkind hfirst
  have hreport : report.code = e.code := code_ofOutcome hrun.1
  have hout : outcome.state.printed = head ++ line := by
    rw [show outcome.state = c' from hrun.2, hprinted]
  rw [hreport]
  refine ⟨hkind, ?_, fun hnone hcode => ?_, hverdict.code_eq_zero_iff hcount,
    hverdict.code_eq_one_iff hcount, hverdict.code_eq_two_iff hcount,
    fun failure hf => hverdict.refused_of_outcome (Except.ok.inj (hrun.1.symm.trans hf)), hfirst,
    head, hhead, fun hcode => ?_, fun n hn m hm hall => ?_⟩
  · cases e <;> simp [RunEnd.code]
  · obtain ⟨n, -, ⟨m, hm⟩, -⟩ := (hverdict.code_eq_one_iff hcount).1 hcode
    exact hplain hnone n m hm
  · rw [hout, hverdict.line_eq_empty hcode, String.append_empty]
  · rw [hout, (hverdict.unique (.mismatch hn hm hall) hcount).2, hm, resultLine, toNat_seed]

/-- A program that adds one to the accumulator, behind a tool that overwrites the sum. -/
def overwritten : Options where
  hex := "48 ff c0 c3"
  clobber := some "RAX"
  runs := 2

/-- A decoder that finds an increment and a return. -/
def countingDecoder : Decoder := fun _ _ => [.valid (.increment 0) 3, .valid .ret 1]

theorem run_law_overwritten :
    (Report.ofOutcome overwritten (run overwritten countingDecoder .new)).code = 1
      ∧ ∃ n < 2, (∃ m, (prepared (some .accumulating)).Trial [.increment 0, .ret]
          (.random .x64 (0 + BitVec.ofNat 64 n)) (.error (.mismatch m)))
        ∧ ∀ j < n, ∃ exit, (prepared (some .accumulating)).Trial [.increment 0, .ret]
          (.random .x64 (0 + BitVec.ofNat 64 j)) (.ok (.exit exit)) := by
  have hcode : readCode overwritten.hex = .ok [0x48, 0xff, 0xc0, 0xc3] := by decide +kernel
  have hblock : firstBlock (countingDecoder [0x48, 0xff, 0xc0, 0xc3] overwritten.address)
      = .ok ([.increment 0, .ret], 4) := rfl
  have htool : overwritten.clobber.map Clobber.ofField? = (some Clobber.accumulating).map some :=
    congrArg some Clobber.ofField?_accumulating
  have hone : (Report.ofOutcome overwritten (run overwritten countingDecoder .new)).code = 1 := by
    decide +kernel
  obtain ⟨-, -, -, -, hiff, -⟩ := run_law hcode hblock (by decide) htool
  exact ⟨hone, hiff.1 hone⟩

end Command

end Rerun
