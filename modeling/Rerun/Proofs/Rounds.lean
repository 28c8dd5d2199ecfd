import Mathlib.Data.List.Nodup
import Rerun.Tool
import Rerun.Proofs.Sites
import Rerun.Proofs.Rollbacks

/-!
# Clients by priority

A new client is put behind all that have its own priority value or a lower one. So whoever comes and
goes, the clients stand in the order of their values, and those of one value in the order in which
they came (`Ordered`); there is one such order only, the stable sort of the clients as they came
(`Ordered.eq_mergeSort`). Every event makes a round through the clients in this order: it comes to
each of them once, and ends early only where a client fails (`Enrols.rounds_in_order`).
-/

namespace Rerun

open Rerun.Action

namespace Registration

/-- The value that gives a client its place. -/
def value (r : Registration) : Int := r.priority.value

/-- Whether a client may stand in front of another one. -/
def precedes (a b : Registration) : Bool := a.value ≤ b.value

end Registration

/-- The second list holds the clients of the first one by their values, and those of one value in
the order of the first list. -/
structure Ordered (arrivals clients : List Registration) : Prop where
  ascending : clients.Pairwise fun a b => a.value ≤ b.value
  stable : ∀ v, clients.filter (·.value = v) = arrivals.filter (·.value = v)

namespace Ordered

variable {arrivals clients clients' : List Registration} {r x y : Registration}

/-! ## The order of the clients -/

theorem nil : Ordered [] [] := ⟨.nil, fun _ => rfl⟩

theorem mem_iff (h : Ordered arrivals clients) : r ∈ clients ↔ r ∈ arrivals := by
  have hmem (l : List Registration) : r ∈ l.filter (·.value = r.value) ↔ r ∈ l := by simp
  rw [← hmem, h.stable, hmem]

/-- What stands first has the lowest value. -/
theorem le_of_mem (h : Ordered arrivals (x :: clients)) (hy : y ∈ arrivals) : x.value ≤ y.value := by
  rcases List.mem_cons.1 (h.mem_iff.2 hy) with rfl | hy
  · exact Int.le_refl _
  · exact (List.pairwise_cons.1 h.ascending).1 y hy

/-- There is one such order only. -/
theorem unique (h : Ordered arrivals clients) (h' : Ordered arrivals clients') :
    clients = clients' := by
  induction clients generalizing arrivals clients' with
  | nil =>
    rcases clients' with _ | ⟨y, rest'⟩
    · rfl
    · cases h.mem_iff.2 (h'.mem_iff.1 List.mem_cons_self)
  | cons x rest ih =>
    rcases clients' with _ | ⟨y, rest'⟩
    · cases h'.mem_iff.2 (h.mem_iff.1 List.mem_cons_self)
    have hvalue : x.value = y.value := Int.le_antisymm
      (h.le_of_mem (h'.mem_iff.1 List.mem_cons_self))
      (h'.le_of_mem (h.mem_iff.1 List.mem_cons_self))
    have hstable (v : Int) : (x :: rest).filter (·.value = v) = (y :: rest').filter (·.value = v) :=
      (h.stable v).trans (h'.stable v).symm
    obtain rfl : x = y := by
      have hfirst := hstable x.value
      rw [List.filter_cons_of_pos (by simp), List.filter_cons_of_pos (by simp [hvalue])] at hfirst
      exact (List.cons.inj hfirst).1
    have htail : Ordered rest' rest := by
      refine ⟨h.ascending.of_cons, fun v => ?_⟩
      have hv := hstable v
      by_cases hx : x.value = v
      · rw [List.filter_cons_of_pos (by simpa using hx),
          List.filter_cons_of_pos (by simpa using hx)] at hv
        exact (List.cons.inj hv).2
      · rwa [List.filter_cons_of_neg (by simpa using hx),
          List.filter_cons_of_neg (by simpa using hx)] at hv
    rw [ih htail ⟨h'.ascending.of_cons, fun _ => rfl⟩]

/-- The stable sort of the library has this order. -/
theorem mergeSort (arrivals : List Registration) :
    Ordered arrivals (arrivals.mergeSort Registration.precedes) := by
  have htrans : ∀ a b c : Registration, a.precedes b → b.precedes c → a.precedes c := by
    simp only [Registration.precedes, decide_eq_true_eq]
    omega
  have htotal : ∀ a b : Registration, a.precedes b || b.precedes a := by
    simp only [Registration.precedes, Bool.or_eq_true, decide_eq_true_eq]
    omega
  have hperm := arrivals.mergeSort_perm Registration.precedes
  constructor
  · exact (arrivals.pairwise_mergeSort htrans htotal).imp of_decide_eq_true
  · intro v
    have hsame : (arrivals.filter (·.value = v)).Pairwise fun a b => a.precedes b := by
      refine List.pairwise_of_forall_mem_list fun a ha b hb => ?_
      have hav := of_decide_eq_true (List.mem_filter.1 ha).2
      have hbv := of_decide_eq_true (List.mem_filter.1 hb).2
      exact decide_eq_true (Int.le_of_eq (hav.trans hbv.symm))
    -- clients of one value stay in their order, and sorting loses none of them
    have hsub := (List.sublist_mergeSort htrans htotal hsame List.filter_sublist).filter
      fun r => decide (r.value = v)
    simp only [List.filter_filter, Bool.and_self] at hsub
    exact (hsub.eq_of_length (hperm.filter _).length_eq.symm).symm

theorem eq_mergeSort (h : Ordered arrivals clients) :
    clients = arrivals.mergeSort Registration.precedes :=
  h.unique (mergeSort arrivals)

/-! ## Clients come and go -/

theorem ascending_place (r : Registration) (h : clients.Pairwise fun a b => a.value ≤ b.value) :
    (Host.place r clients).Pairwise fun a b => a.value ≤ b.value := by
  induction clients with
  | nil => exact List.pairwise_singleton _ _
  | cons x rest ih =>
    obtain ⟨hx, hrest⟩ := List.pairwise_cons.1 h
    rw [Host.place]
    split
    · next hlt =>
      refine List.pairwise_cons.2 ⟨fun y hy => ?_, h⟩
      rcases List.mem_cons.1 hy with rfl | hy
      · exact Int.le_of_lt hlt
      · exact Int.le_trans (Int.le_of_lt hlt) (hx y hy)
    · next hle =>
      refine List.pairwise_cons.2 ⟨fun y hy => ?_, ih hrest⟩
      rcases List.mem_cons.1 ((Host.place_perm r rest).mem_iff.1 hy) with rfl | hy
      · exact Int.not_lt.1 hle
      · exact hx y hy

/-- A new client comes behind those of its value. -/
theorem filter_place (r : Registration) (h : clients.Pairwise fun a b => a.value ≤ b.value)
    (v : Int) : (Host.place r clients).filter (·.value = v)
      = clients.filter (·.value = v) ++ [r].filter (·.value = v) := by
  induction clients with
  | nil => rfl
  | cons x rest ih =>
    obtain ⟨hx, hrest⟩ := List.pairwise_cons.1 h
    rw [Host.place]
    split
    · next hlt =>
      by_cases hr : r.value = v
      · -- from here on all values are higher
        have hnone : (x :: rest).filter (·.value = v) = [] := by
          rw [List.filter_eq_nil_iff]
          intro y hy
          have hxy : x.value ≤ y.value := by
            rcases List.mem_cons.1 hy with rfl | hy
            · exact Int.le_refl _
            · exact hx y hy
          have hlt : r.value < x.value := hlt
          simp only [decide_eq_true_eq]
          omega
        rw [List.filter_cons, hnone, List.nil_append, List.filter_cons, List.filter_nil]
      · simp [List.filter_cons, hr]
    · simp only [List.filter_cons (x := x), ih hrest]
      split <;> rfl

theorem place (h : Ordered arrivals clients) (r : Registration) :
    Ordered (arrivals ++ [r]) (Host.place r clients) where
  ascending := ascending_place r h.ascending
  stable v := by rw [filter_place r h.ascending, h.stable, List.filter_append]

theorem filter (h : Ordered arrivals clients) (keep : Registration → Bool) :
    Ordered (arrivals.filter keep) (clients.filter keep) where
  ascending := h.ascending.filter _
  stable v := by rw [List.filter_comm, h.stable, List.filter_comm]

end Ordered

/-! ## Rounds -/

/-- The clients of a list are called one after another, each with the state that the one before has
left, until one of them fails. The second list holds those that the call has come to. -/
inductive Round {σ : Type} (call : Registration → Action σ Unit) :
    List Registration → σ → List Registration → Except Fault Unit → σ → Prop
  | done (s : σ) : Round call [] s [] (.ok ()) s
  | next {r : Registration} {rest reached : List Registration} {s s₁ s' : σ}
      {res : Except Fault Unit} (called : (call r).Ends s (.ok ()) s₁)
      (others : Round call rest s₁ reached res s') : Round call (r :: rest) s (r :: reached) res s'
  | stop {r : Registration} {rest : List Registration} {s s' : σ} {e : Fault}
      (failed : (call r).Ends s (.error e) s') : Round call (r :: rest) s [r] (.error e) s'

namespace Round

variable {σ : Type} {call : Registration → Action σ Unit} {clients reached : List Registration}
  {s s' : σ} {res : Except Fault Unit}

theorem reached_prefix (h : Round call clients s reached res s') : reached <+: clients := by
  induction h with
  | done => exact List.prefix_refl _
  | next _ _ ih => exact (List.prefix_cons_inj _).2 ih
  | stop => exact ⟨_, rfl⟩

/-- A round without a failure comes to everyone. -/
theorem reached_eq (h : Round call clients s reached (.ok ()) s') : reached = clients := by
  generalize hres : (Except.ok () : Except Fault Unit) = res at h
  induction h with
  | done => rfl
  | next _ _ ih => rw [ih hres]
  | stop => cases hres

end Round

/-- An event comes to the clients of a list in their order and to each of them once, but for those
behind one that fails. -/
def Delivers {σ : Type} (call : Registration → Action σ Unit) (clients : List Registration) (s : σ)
    (res : Except Fault Unit) (s' : σ) : Prop :=
  ∃ reached, Round call clients s reached res s' ∧ reached <+: clients
    ∧ (res = .ok () → reached = clients)

namespace Host

variable {σ : Type} {call : Registration → Action σ Unit} {tell : List Registration → Action σ Unit}
  {event : σ → Event}

/-- An event that is announced to each client before the client is called makes a round. -/
theorem exists_round (hnil : tell [] = pure ())
    (hcons : ∀ r rest, tell (r :: rest) = do
      Action.record (.callback r.priority.name (event (← get)))
      call r
      tell rest) (clients : List Registration) (s : σ) :
    ∃ reached, Round call clients s reached (tell clients s).result (tell clients s).state := by
  induction clients generalizing s with
  | nil =>
    rw [hnil]
    exact ⟨[], .done s⟩
  | cons r rest ih =>
    rcases hr : (call r s).result with e | ⟨⟩
    · have hends : (tell (r :: rest)).Ends s (.error e) (call r s).state := by
        rw [hcons]
        exact (ends_get s).bind ((ends_record _ _).bind (Ends.bind_error ⟨hr, rfl⟩))
      rw [hends.1, hends.2]
      exact ⟨[r], .stop ⟨hr, rfl⟩⟩
    · obtain ⟨reached, hround⟩ := ih (call r s).state
      have hends : (tell (r :: rest)).Ends s (tell rest (call r s).state).result
          (tell rest (call r s).state).state := by
        rw [hcons]
        exact (ends_get s).bind ((ends_record _ _).bind (Ends.bind ⟨hr, rfl⟩ ⟨rfl, rfl⟩))
      rw [hends.1, hends.2]
      exact ⟨r :: reached, .next ⟨hr, rfl⟩ hround⟩

theorem delivers (hnil : tell [] = pure ())
    (hcons : ∀ r rest, tell (r :: rest) = do
      Action.record (.callback r.priority.name (event (← get)))
      call r
      tell rest) (clients : List Registration) (s : σ) :
    Delivers call clients s (tell clients s).result (tell clients s).state := by
  obtain ⟨reached, hround⟩ := exists_round hnil hcons clients s
  refine ⟨reached, hround, hround.reached_prefix, fun hres => ?_⟩
  rw [hres] at hround
  exact hround.reached_eq

variable {h h' : Host} {r : Registration} {pre post : List Registration} {name : String}

/-- A thread that starts comes to the clients before anyone else has it. -/
theorem spawn_delivers (h : Host) (arch : Arch) : ∃ res t,
    Delivers (·.client.started) h.clients (Thread.new h.nextThread arch) res t
      ∧ (spawn arch h).result = res.map fun _ => t := by
  have hround : Delivers (·.client.started) h.clients (Thread.new h.nextThread arch)
      (tellStarted h.clients (Thread.new h.nextThread arch)).result
      (tellStarted h.clients (Thread.new h.nextThread arch)).state :=
    delivers rfl (fun _ _ => rfl) h.clients _
  refine ⟨_, _, hround, ?_⟩
  rcases hres : (tellStarted h.clients (Thread.new h.nextThread arch)).result with e | ⟨⟩
  · have hends : (spawn arch).Ends h (.error e) { h with nextThread := h.nextThread + 1 } :=
      (ends_get h).bind ((ends_set _ _).bind (Ends.on_error ⟨hres, rfl⟩ _).bind_error)
    exact hends.1
  · have hends : (spawn arch).Ends h
        (.ok (tellStarted h.clients (Thread.new h.nextThread arch)).state)
        { h with nextThread := h.nextThread + 1 } :=
      (ends_get h).bind ((ends_set _ _).bind ((Ends.on ⟨hres, rfl⟩ _).bind
        ((ends_say _ _ _ _).bind (ends_pure _ _))))
    exact hends.1

theorem exit_delivers (h : Host) (t : Thread) :
    Delivers (·.client.ended) h.clients t (h.exit t).result (h.exit t).state := by
  have hround : Delivers (·.client.ended) h.clients t (tellEnded h.clients t).result
      (tellEnded h.clients t).state :=
    delivers rfl (fun _ _ => rfl) h.clients t
  rcases hres : (tellEnded h.clients t).result with e | ⟨⟩
  · have hends : h.exit.Ends t (.error e) (tellEnded h.clients t).state :=
      Ends.bind_error ⟨hres, rfl⟩
    rw [hends.1, hends.2, ← hres]
    exact hround
  · have hends : h.exit.Ends t (.ok ()) (tellEnded h.clients t).state :=
      Ends.bind ⟨hres, rfl⟩ ((ends_get _).bind (ends_say _ _ _ _))
    rw [hends.1, hends.2, ← hres]
    exact hround

theorem process_delivers (h : Host) (t : Thread) (forTrace rebuilding : Bool) (d : Draft) :
    Delivers (·.client.built t forTrace rebuilding) h.clients d
      (h.process t forTrace rebuilding d).result (h.process t forTrace rebuilding d).state :=
  delivers rfl (fun _ _ => rfl) h.clients d

/-- Where no name occurs twice, a client that leaves takes nobody else along. -/
theorem removeClient_of_append (hnames : (h.clients.map (·.priority.name)).Nodup)
    (hclients : h.clients = pre ++ r :: post) :
    h.removeClient r.priority.name = (true, { h with clients := pre ++ post }) := by
  rw [hclients, List.map_append, List.map_cons, List.nodup_middle, List.nodup_cons,
    ← List.map_append] at hnames
  have hothers : (pre ++ post).filter (·.priority.name != r.priority.name) = pre ++ post :=
    List.filter_eq_self.2 fun x hx =>
      bne_iff_ne.2 fun heq => hnames.1 (List.mem_map.2 ⟨x, hx, heq⟩)
  have hmem : r ∈ h.clients := by rw [hclients]; exact List.mem_append_right _ List.mem_cons_self
  have hleft : h.clients.filter (·.priority.name != r.priority.name) = pre ++ post := by
    rw [hclients, List.filter_append, List.filter_cons_of_neg (by simp), ← List.filter_append,
      hothers]
  rw [removeClient_of_mem hmem, hleft]

theorem removeClient_of_not_mem (hname : name ∉ h.clientNames) :
    h.removeClient name = (false, h) :=
  removeClient_of_forall_ne fun _ hr heq => hname (List.mem_map.2 ⟨_, hr, heq⟩)

end Host

/-! ## Histories -/

/-- A host, and the clients that it has, in the order in which they came. -/
structure Roster where
  host : Host
  arrivals : List Registration

/-- What a host can have come to that had no clients at first. -/
inductive Enrols : Roster → Prop
  | start {h : Host} (empty : h.clients = []) : Enrols ⟨h, []⟩
  /-- A client is let in. -/
  | added {h h' : Host} {arrivals : List Registration} {r : Registration}
      (before : Enrols ⟨h, arrivals⟩) (call : h.addClient r = (true, h')) :
      Enrols ⟨h', arrivals ++ [r]⟩
  /-- A client is turned away. -/
  | refused {h h' : Host} {arrivals : List Registration} {r : Registration}
      (before : Enrols ⟨h, arrivals⟩) (call : h.addClient r = (false, h')) :
      Enrols ⟨h', arrivals⟩
  /-- The client of a name is struck off. -/
  | removed {h h' : Host} {arrivals : List Registration} {name : String}
      (before : Enrols ⟨h, arrivals⟩) (call : h.removeClient name = (true, h')) :
      Enrols ⟨h', arrivals.filter (·.priority.name != name)⟩
  /-- A client is to be struck off who is not there. -/
  | missed {h h' : Host} {arrivals : List Registration} {name : String}
      (before : Enrols ⟨h, arrivals⟩) (call : h.removeClient name = (false, h')) :
      Enrols ⟨h', arrivals⟩
  /-- Something else happens. -/
  | other {h h' : Host} {arrivals : List Registration}
      (before : Enrols ⟨h, arrivals⟩) (clients : h'.clients = h.clients) : Enrols ⟨h', arrivals⟩

namespace Enrols

open Host

variable {s : Roster}

/-- Each step keeps the order, and that no name occurs twice. -/
theorem ordered (hs : Enrols s) : Ordered s.arrivals s.host.clients ∧ s.host.clientNames.Nodup := by
  induction hs with
  | start empty =>
    simp only [empty, clientNames]
    exact ⟨.nil, .nil⟩
  | @added h _ _ r _ call ih =>
    by_cases hr : h.Refuses r
    · rw [addClient_of_refuses hr] at call
      cases call
    · rw [addClient_of_not_refuses hr] at call
      cases call
      exact ⟨ih.1.place r, nodup_names_place hr ih.2⟩
  | @refused h _ _ r _ call ih =>
    by_cases hr : h.Refuses r
    · rw [addClient_of_refuses hr] at call
      cases call
      exact ih
    · rw [addClient_of_not_refuses hr] at call
      cases call
  | removed _ call ih =>
    cases (Prod.mk.inj call).2
    exact ⟨ih.1.filter _, ih.2.sublist (List.filter_sublist.map _)⟩
  | @missed h _ _ name _ call ih =>
    by_cases hname : name ∈ h.clientNames
    · obtain ⟨r, hr, rfl⟩ := List.mem_map.1 hname
      rw [removeClient_of_mem hr] at call
      cases call
    · rw [removeClient_of_not_mem hname] at call
      cases call
      exact ih
  | other _ clients ih => simpa only [clientNames, clients] using ih

/-- Whoever has come and gone: the clients stand in the stable order of their values, no name occurs
twice, who is turned away or is not there changes nothing, and who leaves takes nobody else along.
A thread that starts, one that ends, and a block come to the clients in this order and to each of
them once. -/
theorem rounds_in_order (hs : Enrols s) :
    s.host.clients = s.arrivals.mergeSort Registration.precedes
    ∧ s.host.clientNames.Nodup
    ∧ (∀ r, s.host.TurnsAway r.priority.name → s.host.addClient r = (false, s.host))
    ∧ (∀ r, ¬s.host.TurnsAway r.priority.name → s.host.addClient r = (true,
      { s.host with clients := (s.arrivals ++ [r]).mergeSort Registration.precedes }))
    ∧ (∀ name, name ∉ s.host.clientNames → s.host.removeClient name = (false, s.host))
    ∧ (∀ pre r post, s.host.clients = pre ++ r :: post →
      s.host.removeClient r.priority.name = (true, { s.host with clients := pre ++ post }))
    ∧ (∀ arch, ∃ res t,
      Delivers (·.client.started) s.host.clients (Thread.new s.host.nextThread arch) res t
        ∧ (spawn arch s.host).result = res.map fun _ => t)
    ∧ (∀ t, Delivers (·.client.ended) s.host.clients t (s.host.exit t).result (s.host.exit t).state)
    ∧ ∀ t forTrace rebuilding d, Delivers (·.client.built t forTrace rebuilding) s.host.clients d
      (s.host.process t forTrace rebuilding d).result
      (s.host.process t forTrace rebuilding d).state := by
  obtain ⟨horder, hnames⟩ := hs.ordered
  refine ⟨horder.eq_mergeSort, hnames, fun r hr => addClient_of_refuses (refuses_iff.2 hr),
    fun r hr => ?_, fun _ => removeClient_of_not_mem, fun _ _ _ => removeClient_of_append hnames,
    spawn_delivers s.host, exit_delivers s.host, process_delivers s.host⟩
  rw [addClient_of_not_refuses (mt refuses_iff.1 hr), (horder.place r).eq_mergeSort]

/-- A client that changes nothing. -/
def idle (name : String) (value : Int) : Registration := ⟨⟨name, value⟩, (Tool.mk none).client⟩

/-- Four clients have come, two of them with one value, and the third one has gone. -/
def joined : Roster where
  host := { Host.new with clients := [idle "early" (-5), idle "twin" (-5), idle "late" 100] }
  arrivals := [idle "late" 100, idle "early" (-5), idle "twin" (-5)]

theorem enrols_joined : Enrols joined := by
  have hlate : Enrols ⟨_, [idle "late" 100]⟩ := .added (.start (h := Host.new) rfl) rfl
  have hearly : Enrols ⟨_, [idle "late" 100, idle "early" (-5)]⟩ := hlate.added rfl
  have hmiddle : Enrols ⟨_, [idle "late" 100, idle "early" (-5), idle "middle" 0]⟩ :=
    hearly.added rfl
  have htwin : Enrols ⟨_,
      [idle "late" 100, idle "early" (-5), idle "middle" 0, idle "twin" (-5)]⟩ := hmiddle.added rfl
  have hgone : Enrols ⟨_, [idle "late" 100, idle "early" (-5), idle "middle" 0,
      idle "twin" (-5)].filter (·.priority.name != "middle")⟩ :=
    (htwin.refused (r := idle "early" 1) rfl).removed rfl
  exact hgone

theorem rounds_in_order_joined : Enrols joined
    ∧ joined.host.clients = joined.arrivals.mergeSort Registration.precedes
    ∧ joined.host.removeClient "twin"
      = (true, { joined.host with clients := [idle "early" (-5), idle "late" 100] })
    ∧ ∀ t, Delivers (·.client.ended) [idle "early" (-5), idle "twin" (-5), idle "late" 100] t
        (joined.host.exit t).result (joined.host.exit t).state := by
  obtain ⟨hsorted, -, -, -, -, hremove, -, hexit, -⟩ := rounds_in_order enrols_joined
  exact ⟨enrols_joined, hsorted, hremove [idle "early" (-5)] _ _ rfl, hexit⟩

end Enrols

end Rerun
