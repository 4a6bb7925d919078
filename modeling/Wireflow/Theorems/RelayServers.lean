/-
# Relays that go, and how many peers they have

A relay whose finalizer is removed leaves no label behind exactly if no label failed to be
removed. The count in the status of a relay is right after a reconcile without errors if the relay
had its finalizer already and its namespaces are not the single empty one, which the API takes for
all namespaces.
-/

import Wireflow.Controller.Relay

namespace Wireflow.Controller

open Wireflow.Api

variable (faults : RelayFaults) (time : ℕ) (relay : LatticeRelayServer) (peers : List LatticePeer)
  (name : String)

/-! ## Removing the label -/

/-- A label survives the loop if no patch of its peer succeeds. -/
theorem exists_labelled_foldl (listed start : List LatticePeer) :
    (∃ p ∈ listed.foldl (clearPeer faults) start, labelled name p) ↔
      ∃ p ∈ start, labelled name p ∧ ∀ q ∈ listed, q.metadata.key = p.metadata.key →
        faults.patchPeer q.metadata.key ≠ none := by
  induction listed generalizing start with
  | nil => simp
  | cons q rest ih =>
    rw [List.foldl_cons, ih]
    simp only [List.forall_mem_cons, clearPeer]
    cases hpatch : faults.patchPeer q.metadata.key with
    | some err => simp
    | none =>
      simp only [patchPeerAt, List.mem_map, exists_exists_and_eq_and]
      refine exists_congr fun p => and_congr_right fun _ => ?_
      by_cases hkey : p.metadata.key = q.metadata.key
      · simp [hkey, labelled, carries, withoutRelayLabel]
      · simp [hkey, Ne.symm hkey]

theorem clearPeers_clean_iff :
    (∀ p ∈ clearPeers faults peers name, ¬labelled name p) ↔
      ∀ p ∈ peers, labelled name p → faults.patchPeer p.metadata.key = none := by
  have h := not_congr (exists_labelled_foldl faults name (peers.filter (labelled name)) peers)
  push Not at h
  rw [clearPeers, h]
  constructor
  · intro h p hp hc
    obtain ⟨q, -, hkey, hnone⟩ := h p hp hc
    rwa [← hkey]
  · exact fun h p hp hc => ⟨p, List.mem_filter.mpr ⟨hp, hc⟩, rfl, h p hp hc⟩

/-! ## Counting -/

/-- How many peers of a relay are in its target namespaces. -/
def targetCount : ℕ :=
  (peers.filter (labelled relay.metadata.name)).countP fun p =>
    relay.namespaces.isEmpty || p.metadata.ns ∈ relay.namespaces

theorem countConnectedPeers_eq_iff :
    countConnectedPeers relay peers = targetCount relay peers ↔
      (relay.namespaces = [""] →
        ∀ p ∈ peers, labelled relay.metadata.name p → p.metadata.ns = "") := by
  unfold countConnectedPeers targetCount
  match hns : relay.namespaces with
  | [] => simp
  | [ns] =>
    by_cases hempty : ns = ""
    · rw [eq_comm]
      simp [hempty, List.countP_eq_length]
    · simp [hempty, List.countP_eq_length_filter]
  | ns :: ns' :: rest => simp

theorem connectedPeers_relayStatus (connected : ℕ) :
    (relayStatus relay connected time).connectedPeers = connected := by
  unfold relayStatus
  split_ifs with h
  · rfl
  · push Not at h
    exact h.1

/-! ## Reconciling -/

/-- The store after a reconcile of a relay. -/
def relayAfter : RelayStore :=
  (reconcileRelay faults time ⟨some relay, peers⟩).2

/-- When the finalizer of a deleted relay is removed, no peer carries its label. -/
def ClearedFirst : Prop :=
  relay.metadata.deletionTimestamp.isSome → relayFinalizer ∈ relay.metadata.finalizers →
    (∀ r ∈ (relayAfter faults time relay peers).relay, relayFinalizer ∉ r.metadata.finalizers) →
    ∀ p ∈ (relayAfter faults time relay peers).peers, ¬labelled relay.metadata.name p

/-- Without errors, the count in the status of a relay is right. -/
def CountRight : Prop :=
  relay.metadata.deletionTimestamp = none →
    ∀ r ∈ (relayAfter {} time relay peers).relay, r.status.connectedPeers = targetCount relay peers

/-- The relay of a store has its finalizer removed by a reconcile that meets no error on the way,
after the clean-up. -/
theorem relayAfter_deleted (hdeleted : relay.metadata.deletionTimestamp.isSome)
    (hfinal : relayFinalizer ∈ relay.metadata.finalizers) :
    ((∀ r ∈ (relayAfter faults time relay peers).relay,
        relayFinalizer ∉ r.metadata.finalizers) ↔
      faults.getRelay = none ∧ faults.listPeers = none ∧ faults.updateRelay = none) ∧
    (faults.getRelay = none → faults.listPeers = none → (relayAfter faults time relay peers).peers =
      clearPeers faults peers relay.metadata.name) := by
  unfold relayAfter reconcileRelay
  cases faults.getRelay with
  | some err => simp [hfinal]
  | none =>
    simp only [hdeleted, if_true, hfinal]
    cases faults.listPeers with
    | some err => simp [hfinal]
    | none => cases faults.updateRelay <;> simp [hfinal]

/-- **Relays.** No label outlives the finalizer of a deleted relay exactly if no patch of a
labelled peer fails. The count is right after a reconcile without errors exactly if the relay has
its finalizer and its namespaces are not the empty one alone, or if that makes no difference. -/
theorem relay_iff :
    (ClearedFirst faults time relay peers ↔
      (relay.metadata.deletionTimestamp.isSome → relayFinalizer ∈ relay.metadata.finalizers →
        faults.getRelay = none ∧ faults.listPeers = none ∧ faults.updateRelay = none →
        ∀ p ∈ peers, labelled relay.metadata.name p → faults.patchPeer p.metadata.key = none)) ∧
    (CountRight time relay peers ↔
      (relay.metadata.deletionTimestamp = none →
        if relayFinalizer ∈ relay.metadata.finalizers then
          relay.namespaces = [""] →
            ∀ p ∈ peers, labelled relay.metadata.name p → p.metadata.ns = ""
        else relay.status.connectedPeers = targetCount relay peers)) := by
  constructor
  · refine imp_congr_right fun hdeleted => imp_congr_right fun hfinal => ?_
    obtain ⟨hremoved, hpeers⟩ := relayAfter_deleted faults time relay peers hdeleted hfinal
    rw [hremoved]
    refine imp_congr_right fun hnone => ?_
    rw [hpeers hnone.1 hnone.2.1, clearPeers_clean_iff]
  · refine imp_congr_right fun hlive => ?_
    by_cases hfinal : relayFinalizer ∈ relay.metadata.finalizers
    · simp [relayAfter, reconcileRelay, hlive, hfinal, connectedPeers_relayStatus,
        countConnectedPeers_eq_iff]
    · simp [relayAfter, reconcileRelay, hlive, hfinal]

/-- A peer of a relay. -/
def relayPeer : LatticePeer where
  metadata := { ns := "a", name := "p", labels := Go.GoMap.ofPairs [(relayPeerLabel, "r")] }

/-- A relay that has its finalizer. -/
def finalized (namespaces : List String) (deletion : Option ℕ) : LatticeRelayServer where
  metadata := { name := "r", finalizers := [relayFinalizer], deletionTimestamp := deletion }
  namespaces := namespaces

/-- The peer cannot be patched, and the finalizer is removed all the same; and a peer is counted
for the empty namespace. -/
theorem relay_forgets :
    (∀ r ∈ (relayAfter { patchPeer := fun _ => some { text := "" } } 0 (finalized [] (some 0))
        [relayPeer]).relay, r.metadata.finalizers = []) ∧
    ((relayAfter { patchPeer := fun _ => some { text := "" } } 0 (finalized [] (some 0))
        [relayPeer]).peers.map (labelled "r")) = [true] ∧
    countConnectedPeers (finalized [""] none) [relayPeer] = 1 ∧
    targetCount (finalized [""] none) [relayPeer] = 0 := by
  refine ⟨?_, by decide, by decide, by decide⟩
  intro r hr
  cases hr
  decide

end Wireflow.Controller
