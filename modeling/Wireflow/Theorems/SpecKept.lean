/-
# What a reconcile leaves of its peer

A reconcile of a peer that has a key changes nothing in the spec of the peer, and among its labels
those of networks only. While the peer is in the network that its spec asks for, it keeps that
network and its address as well (`preserves_handlePhase`).
-/

import Wireflow.Theorems.HandlerCalls

namespace Wireflow.Controller

open Go.Strings
open Semantics Program
open Wireflow.Api

/-- Both statuses are about the same network and address. -/
def SamePlace (st st' : LatticePeerStatus) : Prop :=
  st'.activeNetwork = st.activeNetwork ∧ st'.allocatedAddress = st.allocatedAddress

/-- Calls of the reconciler of `i` that keep the spec, and the place if `member` says so. -/
def Call.Preserves (i : NamespacedName) (member : Prop) : Call → Prop
  | .updatePeer _ => False
  | .patchPeer base modified => modified.metadata.key = i ∧ modified.spec = base.spec ∧
      ∀ k, hasPrefix k networkLabelStart = false →
        base.metadata.labels.lookup k = modified.metadata.labels.lookup k
  | .patchPeerStatus base modified => modified.metadata.key = i ∧
      (member → SamePlace base.status modified.status)
  | _ => True

variable {i : NamespacedName} {member : Prop} {lib : SelectorLibrary} {peer : LatticePeer}
  {req : NamespacedName}

theorem preserves_of_leavesPeers {c : Call} (h : c.LeavesPeers) : c.Preserves i member := by
  cases c with
  | updatePeer | patchPeer | patchPeerStatus => exact h.elim
  | _ => trivial

theorem tame_preserves :
    Tame i (fun st st' => member → SamePlace st st') (Call.Preserves i member) where
  reads {c} hc := by
    cases c <;> first | exact hc.elim | trivial
  config _ := trivial
  labels hkey hlabels := ⟨hkey, rfl, fun k hk => (hlabels k hk).symm⟩
  lenient := {
    refl := fun _ _ => ⟨rfl, rfl⟩
    trans := by
      intro st st' st'' h hsame hmember
      simp only [membership, Prod.mk.injEq] at hsame
      exact ⟨hsame.2.1.trans (h hmember).1, hsame.2.2.trans (h hmember).2⟩
    phase := fun _ _ _ => ⟨rfl, rfl⟩ }
  status hkey h := ⟨hkey, h⟩

section

variable (hkey : peer.metadata.key = i)

include hkey

/-! ## Joining and leaving

Only a peer that is not in its network does either. -/

theorem preserves_joinNetwork {networkName : String}
    (hmember : member → peer.status.activeNetwork = some networkName) :
    (joinNetwork lib peer networkName req).Within (Call.Preserves i member) fun _ => True := by
  unfold joinNetwork
  split_ifs with hactive
  · exact within_pure _
  · have hnot : ¬ member := fun h => hactive (hmember h)
    refine within_except (within_issue trivial)
      (fun err _ => within_failWith tame_preserves hkey _ _ _ err) fun network _ => ?_
    dsimp only
    split_ifs
    · exact within_waiting tame_preserves hkey _ _
    · refine within_bind (within_ensurePeerSpec tame_preserves.toQuiet hkey networkName)
        fun r hr => ?_
      obtain ⟨node, changed⟩ := r
      cases changed with
      | error err => exact within_failWith tame_preserves hr.1 _ _ _ err
      | ok changed =>
        cases changed with
        | true => exact within_pure _
        | false =>
          have hallocate : (allocateIP network node).Within (Call.Preserves i member)
              fun _ => True :=
            (leavesPeers_allocateIP network node).mono (fun _ => preserves_of_leavesPeers)
              fun _ => id
          refine within_except hallocate
            (fun err _ => within_failWith tame_preserves hr.1 _ _ _ err) fun address _ => ?_
          have hjoined : (joinedStatus networkName address node.status).Within
              (Call.Preserves i member) fun st => member → SamePlace node.status st :=
            (within_joinedStatus trivial networkName address node.status).mono (fun _ => id)
              fun _ _ h => absurd h hnot
          exact within_updateStatus_then (within_updateStatus tame_preserves hr.1 hjoined)
            fun node' hnode' => within_lastReconcile tame_preserves hnode' req

theorem preserves_leaveNetwork (hnot : ¬ member) :
    (leaveNetwork lib peer req).Within (Call.Preserves i member) fun _ => True := by
  have hreleased : (leaveReleased lib peer req).Within (Call.Preserves i member)
      fun _ => True :=
    within_leaveReleased tame_preserves hkey (fun _ _ _ h => absurd h hnot) req
  unfold leaveNetwork
  cases peer.status.allocatedAddress with
  | none => exact hreleased
  | some address =>
    exact within_except (within_releaseIP (fun _ => trivial) _ address) (fun _ _ => within_pure _)
      fun _ _ => hreleased

/-! ## The phases -/

theorem preserves_handlePending
    (hmember : member → peer.status.activeNetwork = peer.spec.network) :
    (handlePending lib peer req).Within (Call.Preserves i member) fun _ => True := by
  unfold handlePending
  split
  · have hready : (withPhase .ready peer.status).Within (Call.Preserves i member)
        fun st => member → SamePlace peer.status st := within_ret fun _ => ⟨rfl, rfl⟩
    exact within_updateStatus_then (within_updateStatus tame_preserves hkey hready)
      fun node hnode => within_lastReconcile tame_preserves hnode req
  · rename_i activeNet hspec hactive
    refine preserves_leaveNetwork hkey fun h => ?_
    rw [hmember h, hspec] at hactive
    cases hactive
  · rename_i specNet activeNet hspec hactive
    rw [hspec, hactive] at hmember
    split_ifs with hne
    · exact preserves_leaveNetwork hkey fun h => hne (Option.some.inj (hmember h))
    · exact preserves_joinNetwork hkey fun h => hactive.trans (hmember h)
  · rename_i specNet hspec hactive
    rw [hspec] at hmember
    exact preserves_joinNetwork hkey hmember

theorem preserves_handlePhase (hset : peer.spec.privateKey ≠ "")
    (hmember : member → peer.status.activeNetwork = peer.spec.network) :
    (handlePhase lib peer req).Within (Call.Preserves i member) fun _ => True := by
  have hkeys : (ensureKeys peer).Within (Call.Preserves i member) (Relabelled i peer) := by
    rw [show ensureKeys peer = pure (peer, .ok false) from if_pos hset]
    exact within_ret ⟨hkey, rfl, fun _ => rfl⟩
  unfold handlePhase
  split
  · exact within_handleInitialization tame_preserves hkeys
  · exact preserves_handlePending hkey hmember
  · exact within_handleReady tame_preserves hkey req
  · exact within_handleFailed tame_preserves hkey
  · exact within_handleInitialization tame_preserves hkeys

end

end Wireflow.Controller
