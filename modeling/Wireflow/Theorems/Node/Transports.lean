/-
# State, transport and endpoint

The state of a probe, its current transport and the endpoint in the device should tell the same
story. They are written in two critical sections, and the transition table rejects some moves
without a word: a restart of a connected probe does not go back to `probing`, so the result of its
discovery may be one that the state machine does not accept.

`endpoint_follows_iff` says for all runs in which no other goroutine comes between the two
sections that the three agree if and only if each result fits the state it meets. Restarts of a
connected probe may bring results that do not, and even a single discovery can: when ICE connects
right after WRRP has won, the upgrade may overtake the success (`endpoint_left_behind`).
-/

import Wireflow.Theorems.Node.Epochs

namespace Wireflow.Agent

open Semantics List

namespace Discovery

variable {ι : Type} {fake : String} {d d' : Discovery ι}
  {action : ι × Choice}

/-! ## The notions -/

/-- No goroutine is between the assignment of a transport and the change of the state. -/
def Settled (d : Discovery ι) : Prop := ∀ i, (d.pc i).isAssigned = false

/-- The state is the one of the current transport, and so is the endpoint. -/
structure Coherent (fake : String) (d : Discovery ι) : Prop where
  state : ∀ type, d.state = Node.readyState type ↔ d.currentTransport.map Transport.type = some type
  endpoint : ∀ t, d.currentTransport = some t → d.endpoint = some (t.endpoint fake)

/-- Only the goroutine that has assigned a transport goes on. -/
def Exclusive (d : Discovery ι) (action : ι × Choice) : Prop :=
  ∀ j, j ≠ action.1 → (d.pc j).isAssigned = false

instance [Fintype ι] [DecidableEq ι] : Decidable (Exclusive d action) :=
  inferInstanceAs (Decidable (∀ j, j ≠ action.1 → (d.pc j).isAssigned = false))

/-- After the action the three agree, unless a goroutine is between its two sections. -/
def Follows [DecidableEq ι] (fake : String) (d : Discovery ι) (action : ι × Choice) : Prop :=
  Settled (d.step fake action) → Coherent fake (d.step fake action)

/-- A transport comes in a state that accepts it, or in its own state with its own endpoint; and
a discovery does not fail in a state with a transport. -/
def Fits (fake : String) (d : Discovery ι) (action : ι × Choice) : Prop :=
  match d.pc action.1, action.2 with
  | .assigned t, .go =>
      Node.readyState t.type ∈ allowedTransitions d.state ∨
        d.state = Node.readyState t.type ∧ d.endpoint = some (t.endpoint fake)
  | .failing _, .go => ∀ type, d.state ≠ Node.readyState type
  | _, _ => True

/-! ## Coherence -/

/-- What coherence looks at. -/
structure SameLink (d d' : Discovery ι) : Prop where
  state : d'.state = d.state
  currentTransport : d'.currentTransport = d.currentTransport
  endpoint : d'.endpoint = d.endpoint

theorem SameLink.coherent (h : SameLink d d') (hd : Coherent fake d) : Coherent fake d' := by
  constructor
  · rw [h.state, h.currentTransport]
    exact hd.state
  · rw [h.currentTransport, h.endpoint]
    exact hd.endpoint

theorem readyState_injective {s t : TransportType} (h : Node.readyState s = Node.readyState t) :
    s = t := by
  cases s <;> cases t <;> first | rfl | cases h

/-- Without a transport, coherence is not to be ready. -/
theorem coherent_of_none (hnone : d.currentTransport = none)
    (hstate : ∀ type, d.state ≠ Node.readyState type) : Coherent fake d := by
  constructor
  · intro type
    simp [hnone, hstate type]
  · intro t ht
    rw [hnone] at ht
    cases ht

theorem Coherent.currentTransport_eq_none (hd : Coherent fake d)
    (hstate : ∀ type, d.state ≠ Node.readyState type) : d.currentTransport = none := by
  cases ht : d.currentTransport with
  | none => rfl
  | some t =>
    have hready := (hd.state t.type).mpr (by rw [ht, Option.map_some])
    exact absurd hready (hstate t.type)

/-- With a transport, coherence is its state and its endpoint. -/
theorem coherent_iff_of_some {t : Transport} (ht : d.currentTransport = some t) :
    Coherent fake d ↔
      d.state = Node.readyState t.type ∧ d.endpoint = some (t.endpoint fake) := by
  constructor
  · intro hd
    exact ⟨(hd.state t.type).mpr (by rw [ht, Option.map_some]), hd.endpoint t ht⟩
  · rintro ⟨hstate, hendpoint⟩
    constructor
    · intro type
      rw [hstate, ht, Option.map_some, Option.some.injEq]
      exact ⟨readyState_injective, congrArg _⟩
    · intro s hs
      rw [ht, Option.some.injEq] at hs
      rw [← hs]
      exact hendpoint

/-! ## Transitions -/

/-- A transition to `probing` is only accepted in states without a transport. -/
theorem coherent_transition_probing (hd : Coherent fake d) :
    Coherent fake (d.transition fake .probing) := by
  unfold transition
  split_ifs with hallowed
  · have hstate : ∀ type, d.state ≠ Node.readyState type := by
      intro type hready
      rw [hready] at hallowed
      cases type <;> simp [Node.readyState, allowedTransitions] at hallowed
    apply coherent_of_none
    · exact hd.currentTransport_eq_none hstate
    · intro type
      cases type <;> simp [Node.readyState]
  · exact hd

/-- A transition to the state of the current transport ends well if it is accepted or not
needed. -/
theorem coherent_transition_ready_iff {t : Transport} (ht : d.currentTransport = some t) :
    Coherent fake (d.transition fake (Node.readyState t.type)) ↔
      Node.readyState t.type ∈ allowedTransitions d.state ∨
        d.state = Node.readyState t.type ∧ d.endpoint = some (t.endpoint fake) := by
  have hkept : (d.transition fake (Node.readyState t.type)).currentTransport = some t := by
    rw [currentTransport_transition, ht]
  rw [coherent_iff_of_some hkept]
  unfold transition
  split_ifs with hallowed
  · simp only [hallowed, true_or, iff_true, true_and]
    -- only `probing` and, for ICE, `wrrpReady` accept it
    obtain ⟨type, remoteAddr⟩ := t
    cases hstate : d.state <;> cases type <;>
      simp_all [allowedTransitions, Node.readyState, onTransition, Transport.endpoint]
  · simp [hallowed]

/-- A failure ends well if there was no transport. -/
theorem coherent_transition_failure_iff (failure : Failure) (hd : Coherent fake d) :
    Coherent fake (d.transition fake failure.target) ↔
      ∀ type, d.state ≠ Node.readyState type := by
  have hkept := currentTransport_transition fake failure.target d
  have htarget : ∀ type, failure.target ≠ Node.readyState type := by
    intro type
    cases failure <;> cases type <;> simp [Failure.target, Node.readyState]
  constructor
  · intro h type hready
    -- all ready states accept a failure, and the transport stays
    have hallowed : failure.target ∈ allowedTransitions d.state := by
      rw [hready]
      cases failure <;> cases type <;> decide
    have hstill := (h.state type).mpr (hkept ▸ (hd.state type).mp hready)
    rw [transition, if_pos hallowed] at hstill
    exact htarget type hstill
  · intro hstate
    apply coherent_of_none
    · exact hkept.trans (hd.currentTransport_eq_none hstate)
    · intro type
      unfold transition
      split_ifs
      · exact htarget type
      · exact hstate type

/-! ## Steps -/

/-- Nothing has happened that coherence depends on. -/
structure Quiet (d d' : Discovery ι) : Prop extends SameLink d d' where
  pc : ∀ j, d'.pc j = d.pc j ∨ (d.pc j).isAssigned = false ∧ (d'.pc j).isAssigned = false

theorem Quiet.refl (d : Discovery ι) : Quiet d d := ⟨⟨rfl, rfl, rfl⟩, fun _ => .inl rfl⟩

theorem Quiet.settled (h : Quiet d d') (hsettled : Settled d') : Settled d := by
  intro j
  rcases h.pc j with hsame | ⟨hold, -⟩
  · rw [← hsame]
    exact hsettled j
  · exact hold

/-- What holds at every point of a run in which the three follow each other: between two sections
the transport is the one that was assigned, and else the three agree. -/
structure Inv (fake : String) (d : Discovery ι) : Prop where
  assigned : ∀ i t, d.pc i = .assigned t → d.currentTransport = some t
  coherent : Settled d → Coherent fake d

theorem inv_initial : Inv fake ({} : Discovery ι) where
  assigned _ _ h := (nomatch h)
  coherent _ := coherent_of_none rfl fun type => by cases type <;> simp [Node.readyState]

variable [DecidableEq ι]

theorem Quiet.goto {i : ι} {next : Pc} (hlink : SameLink d d') (hpc : d'.pc = d.pc)
    (hi : (d.pc i).isAssigned = false) (hnext : next.isAssigned = false) :
    Quiet d (d'.goto i next) := by
  refine ⟨⟨hlink.state, hlink.currentTransport, hlink.endpoint⟩, fun j => ?_⟩
  by_cases hj : j = i
  · subst hj
    exact .inr ⟨hi, by simpa using hnext⟩
  · exact .inl (by simp [hj, hpc])

/-- What an action does. Besides the two sections, failures and the change to `probing`, all
actions are quiet. -/
theorem step_cases (fake : String) (d : Discovery ι) (i : ι) (choice : Choice) :
    (∃ t, d.pc i = .assigned t ∧ choice = .go ∧
      d.step fake (i, choice) = (d.transition fake (Node.readyState t.type)).goto i .idle) ∨
    (∃ failure, d.pc i = .failing failure ∧ choice = .go ∧
      d.step fake (i, choice) = (d.transition fake failure.target).goto i failure.next) ∨
    (∃ t, d.pc i = .succeeding t ∧ choice = .go ∧
      d.step fake (i, choice) = { d with currentTransport := some t }.goto i (.assigned t)) ∨
    (∃ epoch, d.pc i = .probing epoch ∧ choice = .go ∧
      d.step fake (i, choice) = (d.transition fake .probing).goto i (.discovering epoch)) ∨
    (Fits fake d (i, choice) ∧ Quiet d (d.step fake (i, choice))) := by
  have hquiet : ∀ d' next, SameLink d d' → d'.pc = d.pc → next.isAssigned = false →
      (d.pc i).isAssigned = false → Quiet d (d'.goto i next) :=
    fun d' next hlink hpc hnext hi => Quiet.goto hlink hpc hi hnext
  cases hpc : d.pc i <;> cases choice <;>
    simp only [step, Fits, hpc, reduceCtorEq, false_and, and_false, exists_false, false_or,
      true_and, and_self, Quiet.refl, Pc.assigned.injEq, Pc.failing.injEq, Pc.succeeding.injEq,
      Pc.probing.injEq, exists_eq_left', true_or, or_true]
  all_goals rw [hpc] at hquiet
  case idle.start | idle.restart => exact hquiet d _ ⟨rfl, rfl, rfl⟩ rfl rfl rfl
  case idle.upgrade =>
    split_ifs
    · exact .refl d
    · exact hquiet _ _ ⟨rfl, rfl, rfl⟩ rfl rfl rfl
  case restarting.go | releasing.go | started.go | discovering.outcome =>
    exact hquiet _ _ ⟨rfl, rfl, rfl⟩ rfl rfl rfl
  case starting.go | returned.go =>
    split_ifs <;> exact hquiet _ _ ⟨rfl, rfl, rfl⟩ rfl rfl rfl
  case checked.go result =>
    refine hquiet _ _ ⟨rfl, rfl, rfl⟩ rfl ?_ rfl
    cases result <;> rfl

/-- Only the goroutine that acts may be between its sections. -/
theorem settled_goto_iff {i : ι} {choice : Choice} {next : Pc}
    (h : Exclusive d (i, choice)) (hpc : d'.pc = d.pc) :
    Settled (d'.goto i next) ↔ next.isAssigned = false := by
  constructor
  · intro hsettled
    simpa using hsettled i
  · intro hnext j
    by_cases hj : j = i
    · subst hj
      simpa using hnext
    · simpa [hj, hpc] using h j hj

theorem settled_of_exclusive {i : ι} {choice : Choice} (h : Exclusive d (i, choice))
    (hi : (d.pc i).isAssigned = false) : Settled d := by
  intro j
  by_cases hj : j = i
  · rw [hj]
    exact hi
  · exact h j hj

theorem coherent_goto_iff {i : ι} {next : Pc} :
    Coherent fake (d.goto i next) ↔ Coherent fake d :=
  ⟨fun h => SameLink.coherent (d := d.goto i next) ⟨rfl, rfl, rfl⟩ h,
    fun h => SameLink.coherent (d := d) ⟨rfl, rfl, rfl⟩ h⟩

/-- **One action.** The three follow each other if and only if the action fits. -/
theorem follows_iff_fits (hd : Inv fake d) (hexclusive : Exclusive d action) :
    Follows fake d action ↔ Fits fake d action := by
  obtain ⟨i, choice⟩ := action
  rcases step_cases fake d i choice with ⟨t, hpc, rfl, hstep⟩ | ⟨failure, hpc, rfl, hstep⟩ |
    ⟨t, hpc, rfl, hstep⟩ | ⟨epoch, hpc, rfl, hstep⟩ | ⟨hfits, hquiet⟩
  · have hsettled : Settled (d.step fake (i, .go)) := by
      rw [hstep, settled_goto_iff hexclusive (pc_transition ..)]
      rfl
    simp only [Follows, Fits, hpc, hsettled, true_imp_iff]
    rw [hstep, coherent_goto_iff, coherent_transition_ready_iff (hd.assigned i t hpc)]
  · have hsettled : Settled (d.step fake (i, .go)) := by
      rw [hstep, settled_goto_iff hexclusive (pc_transition ..)]
      cases failure <;> rfl
    have hcoherent := hd.coherent (settled_of_exclusive hexclusive (by rw [hpc]; rfl))
    simp only [Follows, Fits, hpc, hsettled, true_imp_iff]
    rw [hstep, coherent_goto_iff, coherent_transition_failure_iff failure hcoherent]
  · -- the goroutine is between its sections now
    have hunsettled : ¬ Settled (d.step fake (i, .go)) := by
      intro hsettled
      have hnot := hsettled i
      rw [hstep, pc_goto, Function.update_self] at hnot
      cases hnot
    simp only [Follows, Fits, hpc, hunsettled, false_imp_iff]
  · have hcoherent := hd.coherent (settled_of_exclusive hexclusive (by rw [hpc]; rfl))
    simp only [Follows, Fits, hpc, iff_true]
    intro _
    rw [hstep, coherent_goto_iff]
    exact coherent_transition_probing hcoherent
  · refine iff_of_true (fun hsettled => ?_) hfits
    exact hquiet.coherent (hd.coherent (hquiet.settled hsettled))

/-- An assignment is known until the change of the state. -/
theorem Inv.step (hd : Inv fake d) (hexclusive : Exclusive d action)
    (hfollows : Follows fake d action) : Inv fake (d.step fake action) := by
  refine ⟨fun j t hj => ?_, hfollows⟩
  obtain ⟨i, choice⟩ := action
  -- no other goroutine is between its sections, so only that of the action counts
  have hother : ∀ d' : Discovery ι, ∀ next : Pc, d'.pc = d.pc → next.isAssigned = false →
      (d'.goto i next).pc j ≠ .assigned t := by
    intro d' next hpc hnext hassigned
    have hsettled := (settled_goto_iff hexclusive hpc).mpr hnext j
    rw [hassigned] at hsettled
    cases hsettled
  rcases step_cases fake d i choice with ⟨s, hpc, rfl, hstep⟩ | ⟨failure, hpc, rfl, hstep⟩ |
    ⟨s, hpc, rfl, hstep⟩ | ⟨epoch, hpc, rfl, hstep⟩ | ⟨-, hquiet⟩
  · exact absurd (hstep ▸ hj) (hother _ _ (pc_transition ..) rfl)
  · exact absurd (hstep ▸ hj) (hother _ _ (pc_transition ..) (by cases failure <;> rfl))
  · rw [hstep] at hj ⊢
    by_cases hji : j = i
    · subst hji
      simpa using hj
    · have hfree := hexclusive j hji
      rw [pc_goto, Function.update_of_ne hji] at hj
      rw [hj] at hfree
      cases hfree
  · exact absurd (hstep ▸ hj) (hother _ _ (pc_transition ..) rfl)
  · rw [hquiet.currentTransport]
    rcases hquiet.pc j with hsame | ⟨-, hnot⟩
    · exact hd.assigned j t (hsame ▸ hj)
    · rw [hj] at hnot
      cases hnot

end Discovery

open Discovery in
/-- **Endpoint follows transport.** In a run of any number of goroutines in which no other one acts
between the assignment of a transport and the change of the state, state, current transport and
endpoint agree at all points outside of these sections if and only if every transport comes in a
state that accepts it or that it is the transport of, and no discovery fails in a state with a
transport. -/
theorem endpoint_follows_iff {ι : Type} [DecidableEq ι] (fake : String)
    (actions : List (ι × Choice))
    (hexclusive : AlongSteps (Discovery.step fake) Exclusive ({} : Discovery ι) actions) :
    AlongSteps (Discovery.step fake) (Follows fake) ({} : Discovery ι) actions ↔
      AlongSteps (Discovery.step fake) (Fits fake) ({} : Discovery ι) actions :=
  AlongSteps.iff_of_invariant (I := Inv fake) (fun _ _ hd h => follows_iff_fits hd h)
    (fun _ _ hd h hfollows => hd.step h hfollows) inv_initial hexclusive

/-! ## The steps of a node

A goroutine that is not interrupted does what `Node` takes as one step. -/

section

open Discovery

variable {ι : Type} {d : Discovery ι} {p : Probe}

/-- A probe, as the node has it, and its goroutines. -/
structure Shows (p : Probe) (d : Discovery ι) : Prop where
  state : p.state = d.state
  running : p.running = d.running
  transport : p.transport = d.currentTransport.map Transport.type

/-- The report of an outcome. -/
def Outcome.report : Outcome → Node.Report
  | .connected t => .connected t.type
  | .failed .dialerClosed => .dialerClosed
  | .failed .transient => .failed
  | .failed .unreachable => .unreachable

theorem Shows.transition (h : Shows p d) (fake : String) (target : PeerState) (wgFails : Bool)
    (device : Device) :
    Shows (p.transition target wgFails device).1 (d.transition fake target) := by
  have hlink : ∀ source (q : Probe),
      (q.onTransition source target wgFails device).1.state = q.state ∧
      (q.onTransition source target wgFails device).1.running = q.running ∧
      (q.onTransition source target wgFails device).1.transport = q.transport := by
    intro source q
    unfold Probe.onTransition
    split_ifs
    · cases q.remotePeer with
      | none => exact ⟨rfl, rfl, rfl⟩
      | some peer =>
        dsimp only
        split_ifs <;> exact ⟨rfl, rfl, rfl⟩
    all_goals exact ⟨rfl, rfl, rfl⟩
  unfold Probe.transition Discovery.transition
  rw [h.state]
  split_ifs
  · obtain ⟨hstate, hrunning, htransport⟩ := hlink d.state { p with state := target }
    exact ⟨hstate, hrunning.trans h.running, htransport.trans h.transport⟩
  · exact h

variable [DecidableEq ι]

theorem Shows.goto (h : Shows p d) (i : ι) (next : Pc) : Shows p (d.goto i next) :=
  ⟨h.state, h.running, h.transport⟩

/-- The callback does nothing on the way to `probing`. -/
theorem start_eq_transition (hrunning : p.running = false) (device : Device) :
    p.start = ({ p with running := true }.transition .probing false device).1 := by
  unfold Probe.start Probe.transition
  rw [if_neg (by simp [hrunning])]
  split_ifs
  · simp [Probe.onTransition]
  · rfl

/-- `Start`, from the call to `discover`. -/
theorem shows_start (fake : String) {i : ι} (hpc : d.pc i = .starting) (h : Shows p d) :
    ∃ k, Shows p.start (d.run fake (replicate k (i, .go))) := by
  cases hrunning : d.running with
  | true =>
    have hrun : d.run fake (replicate 1 (i, .go)) = d.goto i .idle := by
      simp [run, step, hpc, hrunning]
    refine ⟨1, ?_⟩
    rw [hrun, Probe.start, if_pos (h.running.trans hrunning)]
    exact h.goto i .idle
  | false =>
    have hrun : d.run fake (replicate 3 (i, .go)) =
        ((({ d with running := true }.goto i .started).goto i (.probing d.epoch)).transition fake
          .probing).goto i (.discovering d.epoch) := by
      simp [run, step, hpc, hrunning, goto]
    refine ⟨3, ?_⟩
    rw [hrun, start_eq_transition (h.running.trans hrunning) fun _ => false]
    refine (Shows.transition ?_ fake .probing false _).goto i _
    exact ⟨h.state, rfl, h.transport⟩

theorem run_replicate_add (fake : String) (d : Discovery ι) (i : ι) (j k : ℕ) :
    d.run fake (replicate (j + k) (i, .go)) =
      (d.run fake (replicate j (i, .go))).run fake (replicate k (i, .go)) := by
  rw [replicate_add, run, foldl_append]
  rfl

/-- `restart`: two actions, and then `Start`. -/
theorem shows_restart (fake : String) {i : ι} (hpc : d.pc i = .restarting) (h : Shows p d) :
    ∃ k, Shows p.restart (d.run fake (replicate k (i, .go))) := by
  have hrun : d.run fake (replicate 2 (i, .go)) =
      { ({ d with epoch := d.epoch + 1 }.goto i .releasing) with running := false }.goto i
        .starting := by
    simp [run, step, hpc, goto]
  have hpc' : (d.run fake (replicate 2 (i, .go))).pc i = .starting := by
    rw [hrun]
    simp
  have hshows : Shows { p with peerKnownDone := false, ice := {}, wrrp := {}, running := false }
      (d.run fake (replicate 2 (i, .go))) := by
    rw [hrun]
    exact ⟨h.state, rfl, h.transport⟩
  obtain ⟨k, hstart⟩ := shows_start fake hpc' hshows
  exact ⟨2 + k, run_replicate_add fake d i 2 k ▸ hstart⟩

/-- The end of a discovery: `onSuccess`, or `onFailure` with the restart that may follow. -/
theorem shows_report (fake : String) {n : Node} {appId : String} {i : ι} {result : Outcome}
    (hprobe : n.probes appId = some p) (hpc : d.pc i = .checked result) (h : Shows p d)
    (wgFails : Bool) :
    ∃ k p', (n.report appId wgFails result.report).probes appId = some p' ∧
      Shows p' (d.run fake (replicate k (i, .go))) := by
  cases result with
  | connected t =>
    have hrun : d.run fake (replicate 3 (i, .go)) =
        (({ ({ d with running := false }.goto i (.succeeding t)) with
          currentTransport := some t }.goto i (.assigned t)).transition fake
          (Node.readyState t.type)).goto i .idle := by
      simp [run, step, hpc, goto, Outcome.next]
    have hreport : (n.report appId wgFails (.connected t.type)).probes appId =
        some ({ p with running := false, transport := some t.type }.transition
          (Node.readyState t.type) wgFails n.device).1 := by
      cases htype : t.type <;> simp [Node.report, hprobe, Node.setProbe, Node.readyState]
    refine ⟨3, _, hreport, ?_⟩
    rw [hrun]
    refine (Shows.transition ?_ fake _ wgFails n.device).goto i _
    exact ⟨h.state, rfl, rfl⟩
  | failed failure =>
    have hrun : d.run fake (replicate 2 (i, .go)) =
        (({ d with running := false }.goto i (.failing failure)).transition fake
          failure.target).goto i failure.next := by
      simp [run, step, hpc, goto, Outcome.next]
    have hfailed : Shows ({ p with running := false }.transition failure.target wgFails n.device).1
        (d.run fake (replicate 2 (i, .go))) := by
      rw [hrun]
      refine (Shows.transition ?_ fake _ wgFails n.device).goto i _
      exact ⟨h.state, rfl, h.transport⟩
    cases failure with
    | transient | unreachable =>
      refine ⟨2, _, ?_, hfailed⟩
      simp [Node.report, Outcome.report, hprobe, Node.setProbe, Failure.target]
    | dialerClosed =>
      have hnext : (d.run fake (replicate 2 (i, .go))).pc i = .restarting := by
        rw [hrun]
        simp [Failure.next]
      obtain ⟨k, hrestart⟩ := shows_restart fake hnext hfailed
      refine ⟨2 + k, _, ?_, run_replicate_add fake d i 2 k ▸ hrestart⟩
      simp [Node.report, Outcome.report, hprobe, Node.setProbe, Failure.target]

end

/-! ## Runs -/

namespace Overtaken

open Discovery

/-- The address that stands for the remote, and the remote as ICE reaches it. -/
def fake : String := "240.0.0.1:1"

def direct : Transport := ⟨.ice, "192.0.2.1:51820"⟩

def relayed : Transport := ⟨.wrrp, "198.51.100.1:6266"⟩

/-- A goroutine goes on several times. -/
def goes (i : Fin 2) (n : ℕ) : List (Fin 2 × Choice) := List.replicate n (i, .go)

/-- `Start` up to the end of `discover`. -/
def discovers (i : Fin 2) (result : Outcome) : List (Fin 2 × Choice) :=
  [(i, .start)] ++ goes i 3 ++ [(i, .outcome result)]

/-- `restart` up to the end of `discover`. -/
def rediscovers (i : Fin 2) (result : Outcome) : List (Fin 2 × Choice) :=
  [(i, .restart)] ++ goes i 5 ++ [(i, .outcome result)]

/-- WRRP connects, and then ICE. -/
def upgraded : List (Fin 2 × Choice) :=
  discovers 0 (.connected relayed) ++ goes 0 4 ++ [(1, .upgrade direct.remoteAddr)] ++ goes 1 2

/-- The same, but the upgrade is faster than the success it follows. -/
def overtaken : Discovery (Fin 2) :=
  run fake {} (discovers 0 (.connected relayed) ++ [(1, .upgrade direct.remoteAddr)] ++
    goes 1 2 ++ goes 0 4)

/-- ICE connects; after a restart, WRRP does. -/
def restarted : Discovery (Fin 2) :=
  run fake {} (discovers 0 (.connected direct) ++ goes 0 4 ++
    rediscovers 0 (.connected relayed) ++ goes 0 4)

/-- ICE connects; after a restart, nothing does. -/
def lost : Discovery (Fin 2) :=
  run fake {} (discovers 0 (.connected direct) ++ goes 0 4 ++
    rediscovers 0 (.failed .transient) ++ goes 0 3)

end Overtaken

open Discovery Overtaken in
/-- An upgrade after the success keeps everything together. -/
theorem endpoint_follows_upgrade :
    AlongSteps (Discovery.step fake) (Follows fake) ({} : Discovery (Fin 2)) upgraded := by
  have hexclusive : AlongSteps (Discovery.step fake) Exclusive ({} : Discovery (Fin 2))
      upgraded := by decide
  refine (endpoint_follows_iff fake upgraded hexclusive).mpr ?_
  refine ⟨trivial, trivial, trivial, trivial, trivial, trivial, trivial, trivial, .inl ?_,
    trivial, trivial, .inl ?_, trivial⟩ <;> decide

open Discovery Overtaken in
/-- **An endpoint that is left behind.** In each of the three runs all goroutines have come to an
end, and the transport is not the one of the state. -/
theorem endpoint_left_behind :
    ((∀ i, overtaken.pc i = .idle) ∧ overtaken.state = .iceReady ∧
      overtaken.currentTransport = some relayed ∧ overtaken.endpoint = some direct.remoteAddr) ∧
    ((∀ i, restarted.pc i = .idle) ∧ restarted.state = .iceReady ∧
      restarted.currentTransport = some relayed ∧ restarted.endpoint = some direct.remoteAddr) ∧
    ((∀ i, lost.pc i = .idle) ∧ lost.state = .failed ∧
      lost.currentTransport = some direct ∧ lost.endpoint = none) := by
  refine ⟨?_, ?_, ?_⟩ <;> decide +kernel

end Wireflow.Agent
