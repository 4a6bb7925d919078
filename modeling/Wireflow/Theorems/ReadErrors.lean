/-
# Failing reads

Building a message swallows the errors of its reads: a failed read ends the snapshot
early or leaves a rule out, and the message computed from the rest is published with
success (`read_errors_iff`).

To see this the server is restricted. Only the reads that snapshot and message are
built from may fail, each whenever it likes, and a trial notes whether one has.
Everything else is answered as the store has it.
-/

import Wireflow.Theorems.Publishing
import Wireflow.Theorems.Tunnels

namespace Wireflow.Controller

open Semantics Program Client
open Wireflow.Api Wireflow.Infra

/-- The reads that snapshot and message are built from. -/
def Call.buildRead : Call → Bool
  | .getNetwork _ | .listPeers _ _ _ | .listPolicies _ => true
  | _ => false

/-- A session that notes whether such a read has failed. -/
structure Trial where
  session : Session
  readFailed : Bool := false

/-- Only the reads for snapshot and message may fail. -/
def tryServe (c : Call) (t : Trial) : c.Res × Trial :=
  let choice := t.session.choices 0
  let answer := exec c (if c.buildRead then choice else { choice with fault := none })
    t.session.world
  (answer.1,
    { session := { world := answer.2, choices := fun n => t.session.choices (n + 1) }
      readFailed := t.readFailed || (c.buildRead && choice.fault.isSome) })

section Reads

variable {lib : SelectorLibrary} {current : LatticePeer} {ns : String} {t : Trial}

theorem readFailed_of_not_buildRead {c : Call} (hc : c.buildRead = false) (t : Trial) :
    (tryServe c t).2.readFailed = t.readFailed := by
  simp [tryServe, hc]

theorem readFailed_of_faultless {c : Call} (h : (t.session.choices 0).fault = none) :
    (tryServe c t).2.readFailed = t.readFailed := by
  simp [tryServe, h]

/-! ## The snapshot

Every error ends it without policies, so when a read has failed there are none. -/

theorem policies_addPolicies {snapshot : PeerStateSnapshot} (hnone : snapshot.policies = [])
    (hclean : t.readFailed = false)
    (hfailed : ((addPolicies lib snapshot).run tryServe t).2.readFailed = true) :
    ((addPolicies lib snapshot).run tryServe t).1.policies = [] := by
  rw [addPolicies, filterPoliciesForNode, run_bind, run_bind] at hfailed ⊢
  cases hanswer : ((listPolicies snapshot.peer.metadata.ns).run tryServe t).1 with
  | error err => exact hnone
  | ok policies =>
    have hfault : (t.session.choices 0).fault = none := (Choice.read_eq_ok hanswer).1
    have hnext : ((listPolicies snapshot.peer.metadata.ns).run tryServe t).2.readFailed =
        false := (readFailed_of_faultless hfault).trans hclean
    rw [hanswer] at hfailed
    dsimp only at hfailed
    -- nothing is called after the list
    cases hmatch : matchPolicies lib snapshot.peer policies with
    | error err | ok matched =>
      rw [hmatch] at hfailed
      exact absurd (hnext.symm.trans hfailed) Bool.false_ne_true

theorem policies_getPeerStateSnapshot (hclean : t.readFailed = false)
    (hfailed : ((getPeerStateSnapshot lib current ns).run tryServe t).2.readFailed = true) :
    ((getPeerStateSnapshot lib current ns).run tryServe t).1.policies = [] := by
  unfold getPeerStateSnapshot at hfailed ⊢
  cases hspec : current.spec.network with
  | none =>
    rw [hspec] at hfailed
    exact policies_addPolicies rfl hclean hfailed
  | some name =>
    rw [hspec] at hfailed
    rw [run_bind] at hfailed ⊢
    cases hnetwork : ((Client.getNetwork ⟨ns, name⟩).run tryServe t).1 with
    | error err => rfl
    | ok network =>
      have hfault : (t.session.choices 0).fault = none := (Choice.read_eq_ok hnetwork).1
      have hclean₁ : ((Client.getNetwork ⟨ns, name⟩).run tryServe t).2.readFailed = false :=
        (readFailed_of_faultless hfault).trans hclean
      rw [hnetwork] at hfailed
      rw [run_bind] at hfailed ⊢
      cases hpeers : ((findPeersByNetwork network).run tryServe
          ((Client.getNetwork ⟨ns, name⟩).run tryServe t).2).1 with
      | error err => rfl
      | ok peers =>
        have hfault₁ := (Choice.read_eq_ok hpeers).1
        have hclean₂ : ((findPeersByNetwork network).run tryServe
            ((Client.getNetwork ⟨ns, name⟩).run tryServe t).2).2.readFailed = false :=
          (readFailed_of_faultless hfault₁).trans hclean₁
        rw [hpeers] at hfailed
        exact policies_addPolicies rfl hclean₂ hfailed

/-! ## The message

It fails only where it resolves peers, and with no policies there is nothing to resolve. -/

theorem exists_generate {snapshot : PeerStateSnapshot} {version : String}
    (hnone : t.readFailed = true → snapshot.policies = [])
    (hfailed : ((generate lib current snapshot version).run tryServe t).2.readFailed = true) :
    ∃ m, ((generate lib current snapshot version).run tryServe t).1 = .ok m := by
  rw [generate, run_bind, run_bind] at hfailed ⊢
  -- neither the time nor the orders are read from the server
  have hkeep : (mapOrders.run tryServe (now.run tryServe t).2).2.readFailed =
      t.readFailed := by
    rw [← readFailed_of_not_buildRead (c := .now) rfl t]
    exact readFailed_of_not_buildRead rfl _
  dsimp only at hfailed ⊢
  split at hfailed
  · rename_i err herr
    have hempty := hnone (hkeep.symm.trans hfailed)
    rw [hempty] at herr
    cases herr
  · rw [run_bind]
    exact ⟨_, rfl⟩

/-! ## Publishing

Nothing that publishing calls may fail here, so it succeeds. -/

/-- A stored peer can be patched. -/
theorem exists_patchPeerStatus (base modified : LatticePeer)
    (h : (t.session.world.store.peers.get modified.metadata.key).isSome) :
    ∃ p, (tryServe (.patchPeerStatus base modified) t).1 = .ok p := by
  obtain ⟨stored, hstored⟩ := Option.isSome_iff_exists.mp h
  have hpatch : ∃ p s, t.session.world.store.patchPeerStatus base modified = .ok (p, s) := by
    rw [Store.patchPeerStatus, Store.findPeer, hstored]
    exact ⟨_, _, rfl⟩
  obtain ⟨p, s, hpatch⟩ := hpatch
  refine ⟨p, ?_⟩
  simp only [tryServe, Call.buildRead, exec, hpatch, Choice.write]
  rfl

variable {peer : LatticePeer}

theorem exists_updateStatus {updateFunc : LatticePeerStatus → Prog LatticePeerStatus}
    (h : (((updateFunc peer.status).run tryServe t).2.session.world.store.peers.get
      peer.metadata.key).isSome) :
    ∃ node changed, ((updateStatus peer updateFunc).run tryServe t).1 = (node, .ok changed) := by
  rw [updateStatus, run_bind]
  generalize (updateFunc peer.status).run tryServe t = updated at h ⊢
  obtain ⟨status, t'⟩ := updated
  split_ifs with hsame
  · exact ⟨_, _, rfl⟩
  · obtain ⟨patched, hpatched⟩ := exists_patchPeerStatus peer { peer with status := status } h
    rw [run_bind, show ((patchPeerStatus _ _).run tryServe t').1 = .ok patched from hpatched]
    exact ⟨_, _, rfl⟩

theorem exists_configWritten (newHash : String)
    (h : (t.session.world.store.peers.get peer.metadata.key).isSome) :
    ∃ r, ((configWritten peer newHash).run tryServe t).1 = .ok r := by
  rw [configWritten, run_bind]
  obtain ⟨node, changed, hupdated⟩ : ∃ node changed, ((updateStatus peer fun st =>
      withCondition NodeCondition.networkConfigured .true Reason.ready ""
        { st with currentHash := newHash }).run tryServe t).1 = (node, .ok changed) :=
    exists_updateStatus h
  rw [hupdated]
  exact ⟨_, rfl⟩

theorem exists_publish (m : Message)
    (h : (t.session.world.store.peers.get peer.metadata.key).isSome) :
    ∃ r, ((publish peer m).run tryServe t).1 = .ok r := by
  rw [publish, run_bind, show (setControllerReference.run tryServe t).1 = .ok () from rfl]
  rw [run_bind, show ((getConfigMap (configKey peer)).run tryServe
      (setControllerReference.run tryServe t).2).1 =
    found "configmaps" (configKey peer)
      (t.session.world.store.configMaps.get (configKey peer)) from rfl]
  cases t.session.world.store.configMaps.get (configKey peer) with
  | none => exact exists_configWritten _ h
  | some cm =>
    split_ifs
    · exact ⟨_, rfl⟩
    · exact exists_configWritten _ h

/-- **A failed read is never reported.** If only the reads for snapshot and message can
fail and one does, the reconcile of a stored peer succeeds. -/
theorem exists_lastReconcile {req : NamespacedName} (hclean : t.readFailed = false)
    (hpeer : (t.session.world.store.peers.get current.metadata.key).isSome)
    (hfailed : ((lastReconcile lib current req).run tryServe t).2.readFailed = true) :
    ∃ r, ((lastReconcile lib current req).run tryServe t).1 = .ok r := by
  rw [lastReconcile, run_bind] at hfailed ⊢
  cases hbuilt : ((buildMessage lib current req.ns).run tryServe t).1 with
  | error err =>
    -- then no read has failed, or the message would have been built without it
    rw [hbuilt] at hfailed
    rw [buildMessage, run_bind, run_bind] at hfailed hbuilt
    refine absurd (exists_generate (fun hfailed' => ?_) hfailed) (by simp [hbuilt])
    apply policies_getPeerStateSnapshot hclean
    rw [← hfailed']
    exact (readFailed_of_not_buildRead rfl _).symm
  | ok m =>
    apply exists_publish m
    refine run_invariant (I := fun t : Trial =>
      (t.session.world.store.peers.get current.metadata.key).isSome)
      (reads_buildMessage current req.ns) (fun c t' hc ht => ?_) hpeer
    obtain ⟨n, hn⟩ := exec_of_reads hc
      (if c.buildRead then t'.session.choices 0 else { t'.session.choices 0 with fault := none })
      t'.session.world
    rw [tryServe, hn]
    exact ht

end Reads

/-- A reconcile that reports an error and leaves the configuration and the recorded hash
as they were. -/
def Refused (peer : LatticePeer) (before : Trial) (out : Outcome × Trial) : Prop :=
  (∃ err, out.1 = .error err) ∧
    out.2.session.world.store.configMaps.get (configKey peer) =
      before.session.world.store.configMaps.get (configKey peer) ∧
    (out.2.session.world.store.peers.get peer.metadata.key).map (·.status.currentHash) =
      (before.session.world.store.peers.get peer.metadata.key).map (·.status.currentHash)

/-- **Read errors.** Failed reads make a reconcile refuse exactly when there are none:
whichever of the reads fail, the message computed from the others is published with
success. -/
theorem read_errors_iff (lib : SelectorLibrary) (peer : LatticePeer) (req : NamespacedName)
    (t : Trial) (hclean : t.readFailed = false)
    (hpeer : (t.session.world.store.peers.get peer.metadata.key).isSome) :
    (((lastReconcile lib peer req).run tryServe t).2.readFailed = true →
        Refused peer t ((lastReconcile lib peer req).run tryServe t)) ↔
      ((lastReconcile lib peer req).run tryServe t).2.readFailed = false := by
  constructor
  · intro hrefused
    by_contra hfailed
    rw [Bool.not_eq_false] at hfailed
    obtain ⟨⟨err, herr⟩, -⟩ := hrefused hfailed
    obtain ⟨r, hr⟩ := exists_lastReconcile hclean hpeer hfailed
    rw [hr] at herr
    cases herr
  · intro hnone hfailed
    exact absurd (hnone.symm.trans hfailed) Bool.false_ne_true

namespace Degraded

/-- `db` with the configuration that lists `web`. -/
def configured : Session :=
  ((lastReconcile .matchLabelsOnly Pair.db Pair.db.metadata.key).run serve
    (Pair.session (Pair.fromWeb "ALLOW"))).2

def peer : LatticePeer := (configured.world.store.peers.get Pair.db.metadata.key).getD Pair.db

/-- The next reconcile times out when it asks for the network. -/
def trial : Trial :=
  { session :=
      { world := configured.world
        choices := fun n => if n = 0 then { fault := some (.transient "timeout") } else {} } }

def reconciled : Outcome × Trial :=
  (lastReconcile .matchLabelsOnly peer peer.metadata.key).run tryServe trial

end Degraded

open Degraded in
/-- One read times out; the reconcile succeeds and replaces the configuration. -/
theorem timeout_degrades_config :
    reconciled.2.readFailed = true ∧ (∃ r, reconciled.1 = .ok r) ∧
      storedConfig reconciled.2.session.world.store (configKey peer) ≠
        storedConfig trial.session.world.store (configKey peer) := by
  have hrun : reconciled.2.readFailed = true ∧ reconciled.1.toOption.isSome ∧
      storedConfig reconciled.2.session.world.store (configKey peer) ≠
        storedConfig trial.session.world.store (configKey peer) := by
    decide +kernel
  obtain ⟨hfailed, hok, hreplaced⟩ := hrun
  obtain ⟨r, final, hfinal⟩ := exists_of_isSome hok
  exact ⟨hfailed, ⟨r, congrArg Prod.fst hfinal⟩, hreplaced⟩

open Degraded in
theorem read_errors_timeout :
    (reconciled.2.readFailed = true → Refused peer trial reconciled) ↔
      reconciled.2.readFailed = false := by
  have hstored : (trial.session.world.store.peers.get peer.metadata.key).isSome := by
    decide +kernel
  unfold reconciled
  exact read_errors_iff .matchLabelsOnly peer peer.metadata.key trial rfl hstored

end Wireflow.Controller
