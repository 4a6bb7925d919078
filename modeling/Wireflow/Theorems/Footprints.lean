/-
# Which calls a message takes

Building the snapshot and the message only reads. The bound is proved once, along
the loops that make up the generator, and is used wherever it matters that a
message has no effect: for leases, for the stored configuration, and for what a
failing read can do. Publishing the message is bounded likewise: it writes the
configuration and reports in the status of the peer, whose address it keeps.
-/

import Wireflow.Controller.PeerReconciler

namespace Wireflow.Controller

open Go (GoMap)
open Semantics Program
open Wireflow.Api Wireflow.Infra

/-- Calls that leave the store, its past and all copies as they are. -/
def Call.Reads : Call → Prop
  | .getNetwork _ | .listPeers _ _ _ | .listPolicies _ | .listEndpoints _ | .getConfigMap _ => True
  | .setControllerReference | .generatePrivateKey | .now | .mapOrders => True
  | .generateConfigVersion => True
  | _ => False

/-- A read changes nothing but the version counter. -/
theorem exec_of_reads {c : Call} (hc : c.Reads) (choice : Choice) (w : World) :
    ∃ n, (exec c choice w).2 = { w with versionCounter := n } := by
  cases c with
  | getPeer _ | updatePeer _ | patchPeer _ _ | patchPeerStatus _ _ | createEndpoint _
  | deleteEndpoint _ =>
    exact hc.elim
  | applyConfigMap _ => exact hc.elim
  | generateConfigVersion => exact ⟨_, rfl⟩
  | _ => exact ⟨w.versionCounter, rfl⟩

variable {P : Call → Prop} {lib : SelectorLibrary}

theorem within_issue {c : Call} (hc : P c) : (issue c).Within P fun _ => True :=
  within_perform hc fun _ => trivial

/-- A program that returns at once issues no call. -/
theorem within_pure {α : Type} (a : α) : (pure a : Prog α).Within P fun _ => True :=
  within_ret trivial

/-! ## The snapshot -/

theorem reads_addPolicies (snapshot : PeerStateSnapshot) :
    (addPolicies lib snapshot).Within Call.Reads fun _ => True :=
  within_except
    (within_except (within_issue trivial) (fun _ _ => within_pure _) fun _ _ => within_pure _)
    (fun _ _ => within_pure _) fun _ _ => within_pure _

theorem reads_getPeerStateSnapshot (current : LatticePeer) (reqNs : String) :
    (getPeerStateSnapshot lib current reqNs).Within Call.Reads fun _ => True := by
  unfold getPeerStateSnapshot
  cases current.spec.network with
  | none => exact reads_addPolicies _
  | some networkName =>
    refine within_except (within_issue trivial) (fun _ _ => within_pure _) fun network _ => ?_
    exact within_except (within_issue trivial) (fun _ _ => within_pure _) fun _ _ =>
      reads_addPolicies _

/-! ## The policies

Building them takes nothing but lists of peers. -/

section Policies

variable (hlist : ∀ ns selector required, P (.listPeers ns selector required))

include hlist

theorem within_collectNames (ns networkName : String) (rules : List PeerSelection)
    (found : GoMap String String) :
    (collectNames lib ns networkName rules found).Within P fun _ => True := by
  induction rules generalizing found with
  | nil => exact within_pure _
  | cons rule rest ih =>
    unfold collectNames
    cases rule.peerSelector with
    | none => exact ih found
    | some peerSelector =>
      dsimp only
      cases lib.labelSelectorAsSelector (some peerSelector) with
      | error err => exact within_pure _
      | ok selector =>
        exact within_except (within_issue (hlist _ _ _)) (fun _ _ => within_pure _) fun _ _ => ih _

theorem within_getPeerNamesByLabels (ns networkName : String) (rules : List PeerSelection) :
    (getPeerNamesByLabels lib ns networkName rules).Within P fun _ => True :=
  within_except (within_collectNames hlist ns networkName rules ∅) (fun _ _ => within_pure _)
    fun _ _ => within_pure _

theorem within_buildRules (src : LatticePolicy) (action : String)
    (rules : List (List PeerSelection × List NetworkPolicyPort)) :
    (buildRules lib src action rules).Within P fun _ => True := by
  induction rules with
  | nil => exact within_pure _
  | cons rule rest ih =>
    obtain ⟨selections, ports⟩ := rule
    exact within_except (within_getPeerNamesByLabels hlist _ _ selections) (fun _ _ => ih)
      fun names _ => within_bind ih fun rules _ => within_pure _

theorem within_buildPolicy (src : LatticePolicy) :
    (buildPolicy lib src).Within P fun _ => True :=
  within_bind (within_buildRules hlist _ _ _) fun _ _ =>
    within_bind (within_buildRules hlist _ _ _) fun _ _ => within_pure _

theorem within_buildPolicies (policies : List LatticePolicy) :
    (buildPolicies lib policies).Within P fun _ => True := by
  induction policies with
  | nil => exact within_pure _
  | cons src rest ih =>
    exact within_bind (within_buildPolicy hlist src) fun policy _ =>
      within_bind ih fun policies _ => within_pure _

end Policies

/-! ## The message -/

/-- How a message is put together, for some order of the maps. The policies are left
open: they are what `buildPolicies` returned. -/
structure Assembled (lib : SelectorLibrary) (current : LatticePeer)
    (snapshot : PeerStateSnapshot) (orders : MapOrders) (m : Message) : Prop where
  current : m.current = currentPeer orders current snapshot
  network : m.network = networkOf orders snapshot
  computedPeers : getComputedPeers lib m.current m.network snapshot.policies = .ok m.computedPeers
  computedRules : evaluate orders (some m.current) (some m.network) m.policies =
    .ok m.computedRules

/-- Whatever the answers, a generated message is assembled from the snapshot. -/
theorem generate_assembled {current : LatticePeer} (snapshot : PeerStateSnapshot)
    (version : String) :
    (generate lib current snapshot version).Within Call.Reads fun r =>
      ∀ m, r = .ok m → ∃ orders, Assembled lib current snapshot orders m := by
  refine within_bind (within_issue trivial) fun timestamp _ =>
    within_bind (within_issue trivial) fun orders _ => ?_
  dsimp only
  cases hcomputed : getComputedPeers lib (currentPeer orders current snapshot)
    (networkOf orders snapshot) snapshot.policies with
  | error err => exact within_ret fun _ h => nomatch h
  | ok computedPeers =>
    refine within_bind (within_buildPolicies (fun _ _ _ => trivial) _) fun policies _ => ?_
    refine within_ret fun m hm => ?_
    cases hm
    exact ⟨orders, rfl, rfl, hcomputed, rfl⟩

/-- **Building the message only reads.** -/
theorem reads_buildMessage (peer : LatticePeer) (reqNs : String) :
    (buildMessage lib peer reqNs).Within Call.Reads fun _ => True :=
  within_bind (reads_getPeerStateSnapshot peer reqNs) fun snapshot _ =>
    within_bind (within_issue trivial) fun version _ =>
      (generate_assembled snapshot version).mono (fun _ => id) fun _ _ => trivial

/-! ## Publishing

What a report leaves alone is what the status says about the network the peer is in. -/

/-- What a status says about the network its peer is in. -/
def membership (st : LatticePeerStatus) : LatticePeerPhase × Option String × Option String :=
  (st.phase, st.activeNetwork, st.allocatedAddress)

/-- Calls that report in the status of a peer and keep its address. -/
def Call.Reports (peer : LatticePeer) : Call → Prop
  | .now => True
  | .patchPeerStatus base modified => base = peer ∧ modified.metadata = peer.metadata ∧
      modified.status.allocatedAddress = peer.status.allocatedAddress
  | _ => False

section Publish

variable {peer : LatticePeer}

/-- A status update keeps the identity of the copy. -/
theorem within_updateStatus_of {P : Call → Prop} {Q : LatticePeerStatus → Prop}
    {updateFunc : LatticePeerStatus → Prog LatticePeerStatus}
    (hupdate : (updateFunc peer.status).Within P Q)
    (hpatch : ∀ status, Q status → P (.patchPeerStatus peer { peer with status := status })) :
    (updateStatus peer updateFunc).Within P fun r => r.1.metadata.key = peer.metadata.key := by
  refine within_bind hupdate fun status hstatus => ?_
  split_ifs
  · exact within_ret rfl
  · refine within_except (within_issue (hpatch status hstatus)) (fun err _ => ?_)
      fun patched _ => within_ret rfl
    dsimp only
    split_ifs
    · exact within_ret rfl
    · exact within_ret rfl

section Report

-- the time, and a status patch that keeps the membership
variable (hnow : P .now)
  (hpatch : ∀ status, membership status = membership peer.status →
    P (.patchPeerStatus peer { peer with status := status }))

include hnow

theorem within_withCondition_of (type : String) (status : ConditionStatus)
    (reason message : String) (st : LatticePeerStatus) :
    (withCondition type status reason message st).Within P
      fun st' => membership st' = membership st :=
  within_bind (within_issue hnow) fun _ _ => within_ret rfl

include hpatch

theorem within_configFailed (what : String) (err : GoError) :
    (configFailed peer what err).Within P fun _ => True := by
  have hupdate := within_withCondition_of hnow NodeCondition.networkConfigured .false
    Reason.configFailed (what ++ err.text) peer.status
  exact within_bind (within_updateStatus_of hupdate hpatch) fun _ _ => within_pure _

theorem within_configWritten (newHash : String) :
    (configWritten peer newHash).Within P fun _ => True := by
  have hupdate := within_withCondition_of hnow NodeCondition.networkConfigured .true
    Reason.ready "" { peer.status with currentHash := newHash }
  refine within_bind (within_updateStatus_of hupdate hpatch) fun result _ => ?_
  obtain ⟨node, updated⟩ := result
  cases updated with
  | error err | ok changed => exact within_pure _

-- and what it takes to write the configuration
variable (hset : P .setControllerReference) (hget : ∀ key, P (.getConfigMap key))
  (happly : ∀ cm, P (.applyConfigMap cm))

include happly

theorem within_writeConfig (m : Message) (what : String) :
    (writeConfig peer m what).Within P fun _ => True :=
  within_except (within_issue (happly _)) (fun err _ => within_configFailed hnow hpatch what err)
    fun _ _ => within_configWritten hnow hpatch _

include hset hget

theorem within_publish_of (m : Message) : (publish peer m).Within P fun _ => True := by
  refine within_except (within_issue hset) (fun _ _ => within_pure _) fun _ _ => ?_
  refine within_except (within_issue (hget _)) (fun err _ => ?_) fun cm _ => ?_
  all_goals
    dsimp only
    split_ifs
    · exact within_pure _
    · exact within_writeConfig hnow hpatch happly m _

/-- **The end of every reconcile** reads, writes the configuration and reports. -/
theorem within_lastReconcile_of (hreads : ∀ c : Call, c.Reads → P c) (req : NamespacedName) :
    (lastReconcile lib peer req).Within P fun _ => True := by
  have hbuild : (buildMessage lib peer req.ns).Within P fun _ => True :=
    (reads_buildMessage peer req.ns).mono hreads fun _ => id
  exact within_except hbuild (fun _ _ => within_pure _) fun message _ =>
    within_publish_of hnow hpatch hset hget happly message

end Report

/-- A status patch that keeps the membership is a report. -/
theorem reports_configWritten (newHash : String) :
    (configWritten peer newHash).Within (Call.Reports peer) fun _ => True := by
  refine within_configWritten trivial (fun status h => ?_) newHash
  simp only [membership, Prod.mk.injEq] at h
  exact ⟨rfl, rfl, h.2.2⟩

end Publish

end Wireflow.Controller
