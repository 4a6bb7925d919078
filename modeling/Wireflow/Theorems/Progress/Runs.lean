/-
# Stuck peers

A peer is *stuck* when it is not where it should be, or not `Ready`, and a reconcile
leaves it exactly as it is, returns no error and asks for no further reconcile. With a
server that answers and reads that are current, one kind of edit leads there and nothing
else does (`stuck_along_iff`): `Spec.Network` is set back to the network that a peer in
`Pending` is still in. `joinNetwork` then returns at once, without marking the peer `Ready`
(`stuck_after_revert`).
-/

import Wireflow.Theorems.Progress.Handlers

namespace Wireflow.Controller

open Semantics
open Wireflow.Api Table

/-! ## Runs -/

/-- What happens, one after another, while every call is answered. -/
inductive Occurrence
  | edit (key : NamespacedName) (network : Option String)
  | reconcile (key : NamespacedName) (choices : ℕ → Choice)

/-- Nothing fails during the event. -/
def Occurrence.Calm : Occurrence → Prop
  | .edit _ _ => True
  | .reconcile _ choices => Controller.Calm choices

def play (lib : SelectorLibrary) (w : World) : Occurrence → World
  | .edit key network => disturb (.setSpecNetwork key network) w
  | .reconcile key choices => ((reconcile lib key).run serve ⟨w, choices⟩).2.world

/-- The world after the first `n` events. -/
def worldAt (lib : SelectorLibrary) (w : World) (events : List Occurrence) (n : ℕ) : World :=
  (events.take n).foldl (play lib) w

/-- The peer is not settled, and a reconcile leaves it as it is, without an error and without
asking for another one. -/
def Stuck (lib : SelectorLibrary) (w : World) (key : NamespacedName) : Prop :=
  ∃ p choices, w.store.peers.get key = some p ∧ ¬ Settled p ∧ Calm choices ∧
    ((reconcile lib key).run serve ⟨w, choices⟩).1 = .ok {} ∧
    ((reconcile lib key).run serve ⟨w, choices⟩).2.world.store.peers.get key = some p

/-- The event sets `Spec.Network` to the network that the peer, while `Pending`, is in. -/
def Reverts (w : World) (key : NamespacedName) : Occurrence → Prop
  | .edit edited network => edited = key ∧ ∃ p n, w.store.peers.get key = some p ∧
      p.status.phase = .pending ∧ p.status.activeNetwork = some n ∧ network = some n
  | .reconcile _ _ => False

/-- A peer as it is created. -/
structure Created (p : LatticePeer) : Prop where
  status : p.status = {}
  alive : p.metadata.deletionTimestamp = none
  visible : isShadow p = false

variable {p : LatticePeer}

theorem Created.fit (h : Created p) : Fit p := by
  refine ⟨h.alive, h.visible, fun hphase => ?_, placed_of_inactive ?_⟩
  · rw [h.status] at hphase
    exact absurd rfl hphase
  · rw [h.status]

section Runs

variable {lib : SelectorLibrary} {w : World} {key : NamespacedName} {events : List Occurrence}

/-- An edit reaches one peer. -/
theorem get_edit (edited : NamespacedName) (network : Option String) :
    (play lib w (.edit edited network)).store.peers.get key =
      if edited = key then (w.store.peers.get key).map (editedPeer network)
      else w.store.peers.get key := by
  rw [play, disturb]
  cases hget : w.store.peers.get edited with
  | none =>
    split_ifs with hkey
    · subst hkey
      rw [hget]
      rfl
    · rfl
  | some p =>
    have hput : (editedPeer network p).metadata.key = edited := key_of_get hget
    split_ifs with hkey
    · subst hkey
      rw [hget, ← hput]
      exact get_put_self _ (editedPeer network p)
    · exact get_put_ne fun heq => hkey (heq.trans hput).symm

/-- **One event** keeps a peer fit, unless it is a revert. -/
theorem fit_play {e : Occurrence} (hcalm : e.Calm) (hnot : ¬ Reverts w key e)
    (hfit : ∀ p, w.store.peers.get key = some p → Fit p) {p' : LatticePeer}
    (hget : (play lib w e).store.peers.get key = some p') : Fit p' := by
  cases e with
  | edit edited network =>
    rw [get_edit] at hget
    split_ifs at hget with hkey
    · obtain ⟨p, hp, rfl⟩ := Option.map_eq_some_iff.mp hget
      have hp' := hfit p hp
      refine ⟨hp'.alive, hp'.visible, hp'.finalizer, fun n hn => ?_⟩
      rcases hp'.placed n hn with hready | ⟨hpending, -⟩
      · exact .inl hready
      · exact .inr ⟨hpending, fun hnetwork => hnot ⟨hkey, p, n, hp, hpending, hn, hnetwork⟩⟩
    · exact hfit p' hget
  | reconcile k choices =>
    cases hstored : w.store.peers.get k with
    | none =>
      have hsame := ensures_reconcile_absent lib (s := ⟨w, choices⟩) hcalm hstored
      apply hfit
      rw [← hget]
      exact congrArg (get · key) hsame.symm
    | some p =>
      have hleads := ensures_reconcile lib (s := ⟨w, choices⟩) hcalm hstored
      obtain rfl : p.metadata.key = k := key_of_get hstored
      by_cases hkey : key = p.metadata.key
      · subst hkey
        obtain ⟨q, hq, hfitq, -⟩ := hleads.fit (hfit p hstored)
        rw [Option.some.inj (hget.symm.trans hq)]
        exact hfitq
      · exact hfit p' ((hleads.spared key hkey).symm.trans hget)

theorem worldAt_succ (lib : SelectorLibrary) (w : World) (events : List Occurrence) (n : ℕ) :
    worldAt lib w events (n + 1) =
      match events[n]? with
      | some e => play lib (worldAt lib w events n) e
      | none => worldAt lib w events n := by
  rw [worldAt, List.take_add_one, List.foldl_append]
  cases events[n]? with
  | none => rfl
  | some e => rfl

/-- **A whole run** without reverts keeps the peer fit. -/
theorem fit_worldAt (hfit : ∀ p, w.store.peers.get key = some p → Fit p)
    (hcalm : ∀ e ∈ events, e.Calm) {n : ℕ}
    (hnot : ∀ m < n, ∀ e, events[m]? = some e → ¬ Reverts (worldAt lib w events m) key e)
    (hget : (worldAt lib w events n).store.peers.get key = some p) : Fit p := by
  induction n generalizing p with
  | zero => exact hfit p hget
  | succ n ih =>
    have hbefore : ∀ q, (worldAt lib w events n).store.peers.get key = some q → Fit q :=
      fun q hq => ih (fun m hm => hnot m (Nat.lt_succ_of_lt hm)) hq
    rw [worldAt_succ] at hget
    cases he : events[n]? with
    | none =>
      rw [he] at hget
      exact hbefore p hget
    | some e =>
      rw [he] at hget
      exact fit_play (hcalm e (List.mem_of_getElem? he)) (hnot n (Nat.lt_succ_self n) e he)
        hbefore hget

/-- A peer that is fit is not stuck. -/
theorem not_stuck_of_fit (hfit : ∀ p, w.store.peers.get key = some p → Fit p) :
    ¬ Stuck lib w key := by
  rintro ⟨p, choices, hstored, hnot, hcalm, hok, hsame⟩
  have hleads := ensures_reconcile lib (s := ⟨w, choices⟩) hcalm hstored
  obtain ⟨p', hp', -, hmoved⟩ := hleads.fit (hfit p hstored)
  obtain rfl : p.metadata.key = key := key_of_get hstored
  exact hnot (hmoved hok (Option.some.inj (hp'.symm.trans hsame)))

/-- A peer that is `Pending` in the network it should be in is stuck. -/
theorem stuck_of_inPlace {n : String} (hstored : w.store.peers.get key = some p)
    (halive : p.metadata.deletionTimestamp = none) (hvisible : isShadow p = false)
    (hfinal : finalizerName ∈ p.metadata.finalizers) (hpending : p.status.phase = .pending)
    (hactive : p.status.activeNetwork = some n) (hspec : p.spec.network = some n) :
    Stuck lib w key := by
  have hcalm : Calm fun _ => {} := fun _ => ⟨rfl, rfl⟩
  obtain ⟨hok, hsame⟩ := ensures_reconcile_inPlace lib (s := ⟨w, fun _ => {}⟩) hcalm
    hstored halive hvisible hfinal hpending hactive hspec
  refine ⟨p, fun _ => {}, hstored, ?_, hcalm, hok, hsame⟩
  intro hsettled
  rw [hsettled.1] at hpending
  cases hpending

/-- **Stuck peers.** In a run without API errors that starts with the peer being created, the
peer is stuck at some point if and only if at some point, while it is `Pending`, its
`Spec.Network` is set to the network it is in. -/
theorem stuck_along_iff (lib : SelectorLibrary) (w : World) (events : List Occurrence)
    (key : NamespacedName) (hcreated : ∀ p, w.store.peers.get key = some p → Created p)
    (hcalm : ∀ e ∈ events, e.Calm) :
    (∃ n, Stuck lib (worldAt lib w events n) key) ↔
      ∃ n e, events[n]? = some e ∧ Reverts (worldAt lib w events n) key e := by
  have hfit : ∀ p, w.store.peers.get key = some p → Fit p := fun p hp => (hcreated p hp).fit
  constructor
  · rintro ⟨n, hstuck⟩
    by_contra hnone
    refine not_stuck_of_fit (fun p hp => fit_worldAt hfit hcalm (fun m _ e he hrev => ?_) hp) hstuck
    exact hnone ⟨m, e, he, hrev⟩
  · intro hrev
    classical
    -- up to the first revert the peer is fit
    obtain ⟨e, he, hfirst⟩ := Nat.find_spec hrev
    have hbefore : ∀ p, (worldAt lib w events (Nat.find hrev)).store.peers.get key = some p →
        Fit p := fun p hp => fit_worldAt hfit hcalm
      (fun m hm e' he' hrev' => Nat.find_min hrev hm ⟨e', he', hrev'⟩) hp
    refine ⟨Nat.find hrev + 1, ?_⟩
    rw [worldAt_succ, he]
    cases e with
    | reconcile k choices => exact hfirst.elim
    | edit edited network =>
      obtain ⟨rfl, p, n, hp, hpending, hactive, rfl⟩ := hfirst
      have hget : (play lib (worldAt lib w events (Nat.find hrev))
          (.edit edited (some n))).store.peers.get edited = some (editedPeer (some n) p) := by
        rw [get_edit, if_pos rfl, hp]
        rfl
      have hp' := hbefore p hp
      have hfinal : finalizerName ∈ p.metadata.finalizers := hp'.finalizer (by simp [hpending])
      exact stuck_of_inPlace hget hp'.alive hp'.visible hfinal hpending hactive rfl

end Runs

/-! ## The revert

A peer joins network `A`, is told to move to `B`, and before it has left `A` it is told to
stay. -/

namespace Revert

def a : NamespacedName := ⟨"d", "a"⟩

def network (name cidr : String) : LatticeNetwork :=
  { metadata := { ns := "d", name := name }, activeCIDR := cidr }

def start : World :=
  { store :=
      { peers := ofList [{ metadata := { ns := "d", name := "a", uid := "a" } }]
        networks := ofList [network "A" "10.0.0.0/24", network "B" "10.0.1.0/24"] } }

def reconciled : Occurrence :=
  .reconcile a fun _ => { key := { privateKey := "k", publicKey := "p", peerId := 1 } }

/-- Finalizer, keys, `Pending`, labels, `Ready`. -/
def events : List Occurrence :=
  [.edit a (some "A"), reconciled, reconciled, reconciled, reconciled, reconciled,
    .edit a (some "B"), reconciled, .edit a (some "A")]

theorem start_created (p : LatticePeer) (h : start.store.peers.get a = some p) : Created p := by
  cases h
  exact ⟨rfl, rfl, by decide⟩

theorem events_calm : ∀ e ∈ events, e.Calm := by
  have hcalm : reconciled.Calm := fun _ => ⟨rfl, rfl⟩
  intro e he
  simp only [events, List.mem_cons, List.not_mem_nil, or_false] at he
  rcases he with rfl | rfl | rfl | rfl | rfl | rfl | rfl | rfl | rfl <;> trivial

/-- What decides whether a peer is stuck. -/
structure State where
  phase : LatticePeerPhase
  activeNetwork : Option String
  network : Option String
  alive : Bool := true
  shadow : Bool := false
  finalizers : List String := [finalizerName]
  deriving DecidableEq

def stateOf (w : World) (key : NamespacedName) : Option State :=
  (w.store.peers.get key).map fun p => ⟨p.status.phase, p.status.activeNetwork, p.spec.network,
    p.metadata.deletionTimestamp.isNone, isShadow p, p.metadata.finalizers⟩

end Revert

open Revert in
/-- After the revert the peer is `Pending` for good. -/
theorem stuck_after_revert :
    (∀ p, start.store.peers.get a = some p → Created p) ∧ (∀ e ∈ events, e.Calm) ∧
      Stuck .matchLabelsOnly (worldAt .matchLabelsOnly start events 9) a := by
  refine ⟨start_created, events_calm, ?_⟩
  have hstate : stateOf (worldAt .matchLabelsOnly start events 9) a =
      some { phase := .pending, activeNetwork := some "A", network := some "A" } := by
    decide +kernel
  obtain ⟨p, hp, hfields⟩ := Option.map_eq_some_iff.mp hstate
  simp only [State.mk.injEq] at hfields
  obtain ⟨hpending, hactive, hspec, halive, hvisible, hfinal⟩ := hfields
  have hkept : finalizerName ∈ p.metadata.finalizers := by simp [hfinal]
  exact stuck_of_inPlace hp (Option.isNone_iff_eq_none.mp halive) hvisible hkept hpending
    hactive hspec

open Revert in
/-- Where the revert happens. -/
theorem stuck_along_iff_revert :
    ∃ n, Stuck .matchLabelsOnly (worldAt .matchLabelsOnly start events n) a := by
  apply (stuck_along_iff .matchLabelsOnly start events a start_created events_calm).mpr
  refine ⟨8, .edit a (some "A"), rfl, rfl, ?_⟩
  have hstate : stateOf (worldAt .matchLabelsOnly start events 8) a =
      some { phase := .pending, activeNetwork := some "A", network := some "B" } := by
    decide +kernel
  obtain ⟨p, hp, hfields⟩ := Option.map_eq_some_iff.mp hstate
  simp only [State.mk.injEq] at hfields
  obtain ⟨hpending, hactive, -⟩ := hfields
  exact ⟨p, "A", hp, hpending, hactive, rfl⟩

end Wireflow.Controller
