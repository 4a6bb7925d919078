/-
# Which calls a handler takes

Of all a reconcile does, only three places can make a peer join a network or give up a
lease: allocating an address, recording it, and releasing it. Everything else is bounded
here once and for all: it reads, publishes the configuration, changes labels and keys of its
own peer, and changes the status of its own peer without a join (`NoJoin`).

The bounds are stated for any predicate on calls that permits this much (`Tame`), and for any
relation between a status and its successor that such changes respect (`Lenient`). An argument
about leases instantiates them with its own predicate and meets nothing but the three places
that matter.
-/

import Wireflow.Theorems.Footprints

namespace Wireflow.Controller

open Go.Strings (hasPrefix)
open Semantics Program
open Wireflow.Api

/-- A change of status that joins nothing: network and address stay, and the peer does not
become `Ready`; or the peer leaves its network. -/
def NoJoin (st st' : LatticePeerStatus) : Prop :=
  (st'.activeNetwork = st.activeNetwork ∧ st'.allocatedAddress = st.allocatedAddress ∧
    (st'.phase = st.phase ∨ st'.phase ≠ .ready)) ∨
  (st.activeNetwork ≠ none ∧ st'.activeNetwork = none ∧ st'.allocatedAddress = none)

/-- Changing a patch leaves the shadow label alone. -/
def KeepsShadow (base modified : LatticePeer) : Prop :=
  base.metadata.labels.lookup labelShadow = modified.metadata.labels.lookup labelShadow

/-- All labels but those of networks are the same. -/
def SameButNetworks (labels labels' : Labels) : Prop :=
  ∀ k, hasPrefix k networkLabelStart = false → labels'.lookup k = labels.lookup k

/-- A predicate on calls that permits what a reconcile of the peer `i` may do without touching
the status. -/
structure Quiet (i : NamespacedName) (P : Call → Prop) : Prop where
  reads : ∀ {c : Call}, c.Reads → P c
  config : ∀ cm, P (.applyConfigMap cm)
  labels : ∀ {base : LatticePeer} {labels : Labels}, base.metadata.key = i →
    SameButNetworks base.metadata.labels labels →
    P (.patchPeer base { base with metadata := { base.metadata with labels := labels } })

/-- Other conditions, and a phase other than `Ready`, do not matter to the relation. -/
structure Lenient (R : LatticePeerStatus → LatticePeerStatus → Prop) : Prop where
  refl : ∀ st, R st st
  trans : ∀ {st st' st''}, R st st' → membership st'' = membership st' → R st st''
  phase : ∀ {phase}, phase ≠ .ready → ∀ st, R st { st with phase := phase }

/-- A predicate on calls that permits what every reconcile of the peer `i` may do. -/
structure Tame (i : NamespacedName) (R : LatticePeerStatus → LatticePeerStatus → Prop)
    (P : Call → Prop) : Prop extends Quiet i P where
  lenient : Lenient R
  status : ∀ {base : LatticePeer} {status : LatticePeerStatus}, base.metadata.key = i →
    R base.status status → P (.patchPeerStatus base { base with status := status })

variable {i : NamespacedName} {R : LatticePeerStatus → LatticePeerStatus → Prop} {P : Call → Prop}
  {lib : SelectorLibrary} {peer : LatticePeer}

/-! ## Updates -/

theorem lenient_noJoin : Lenient NoJoin where
  refl _ := .inl ⟨rfl, rfl, .inl rfl⟩
  trans h heq := by
    simp only [membership, Prod.mk.injEq] at heq
    obtain ⟨hphase, hactive, haddress⟩ := heq
    unfold NoJoin
    rw [hphase, hactive, haddress]
    exact h
  phase h _ := .inl ⟨rfl, rfl, .inr h⟩

/-- A status update whose error ends the reconcile. -/
theorem within_updateStatus_then {f : LatticePeerStatus → Prog LatticePeerStatus}
    {next : LatticePeer → Prog Outcome}
    (hupdate : (updateStatus peer f).Within P fun r => r.1.metadata.key = i)
    (hnext : ∀ node : LatticePeer, node.metadata.key = i → (next node).Within P fun _ => True) :
    (do let (node, updated) ← updateStatus peer f
        match updated with
        | .error err => pure (.error err)
        | .ok _ => next node : Prog Outcome).Within P fun _ => True := by
  refine within_bind hupdate fun r hr => ?_
  obtain ⟨node, updated⟩ := r
  cases updated with
  | error err => exact within_pure _
  | ok _ => exact hnext node hr

/-- What an update of spec or labels returns: the status of the copy stays, and so does the
whole copy when nothing was patched. -/
def Relabelled (i : NamespacedName) (peer : LatticePeer)
    (r : LatticePeer × Except GoError Bool) : Prop :=
  r.1.metadata.key = i ∧ r.1.status = peer.status ∧ (r.2 = .ok false → r.1 = peer)

variable {f : LatticePeer → Prog (Except GoError LatticePeer)}

/-- An update of spec or labels whose patch is permitted. -/
theorem within_updateSpec_of
    (hf : (f peer).Within P fun r => ∀ nodeCopy, r = .ok nodeCopy → P (.patchPeer peer nodeCopy)) :
    (updateSpec peer f).Within P (Relabelled peer.metadata.key peer) := by
  refine within_bind hf fun r hr => ?_
  cases r with
  | error err => exact within_ret ⟨rfl, rfl, fun _ => rfl⟩
  | ok nodeCopy =>
    dsimp only
    split_ifs with hsame
    · exact within_ret ⟨rfl, rfl, fun _ => rfl⟩
    · refine within_except (within_issue (hr nodeCopy rfl)) (fun err _ => ?_)
        fun patched _ => within_ret ⟨rfl, rfl, nofun⟩
      dsimp only
      split_ifs
      · exact within_ret ⟨rfl, rfl, fun _ => rfl⟩
      · exact within_ret ⟨rfl, rfl, fun _ => rfl⟩

/-! ## Labels and keys -/

/-- Labels of networks alone are dropped. -/
theorem sameButNetworks_remove (labels : Labels) :
    SameButNetworks labels (removeNetworkLabels labels) := by
  intro k hk
  rw [removeNetworkLabels, Go.GoMap.lookup_deleteWhere, hk]
  rfl

theorem SameButNetworks.shadow {labels labels' : Labels} (h : SameButNetworks labels labels') :
    labels.lookup labelShadow = labels'.lookup labelShadow := (h labelShadow (by decide)).symm

/-- Labels of networks come and go. -/
theorem within_updateLabels (hP : Quiet i P) (hkey : peer.metadata.key = i)
    (hf : (f peer).Within P fun r => ∀ nodeCopy, r = .ok nodeCopy →
      ∃ labels, nodeCopy = { peer with metadata := { peer.metadata with labels := labels } } ∧
        SameButNetworks peer.metadata.labels labels) :
    (updateSpec peer f).Within P (Relabelled i peer) := by
  subst hkey
  refine within_updateSpec_of (hf.mono (fun _ => id) fun r hr nodeCopy hok => ?_)
  obtain ⟨labels, rfl, hlabels⟩ := hr nodeCopy hok
  exact hP.labels rfl hlabels

theorem within_ensurePeerSpec (hP : Quiet i P) (hkey : peer.metadata.key = i)
    (networkName : String) :
    (ensurePeerSpec peer networkName).Within P (Relabelled i peer) := by
  apply within_updateLabels hP hkey
  have hnetwork : (getNetwork peer networkName).Within P fun _ => True :=
    within_except (within_issue (hP.reads trivial)) (fun _ _ => within_pure _)
      fun _ _ => within_pure _
  refine within_except hnetwork (fun err _ => within_ret fun _ h => nomatch h)
    fun network _ => within_ret ?_
  intro nodeCopy hok
  cases hok
  refine ⟨_, rfl, fun k hk => ?_⟩
  have hne : k ≠ networkLabelKey network.metadata.name := by
    rintro rfl
    rw [hasPrefix_networkLabelKey] at hk
    cases hk
  rw [AList.lookup_insert_ne hne, sameButNetworks_remove _ k hk]

theorem within_ensureKeys (hP : Quiet i P)
    (hpatch : ∀ {base modified : LatticePeer}, modified.metadata.key = i →
      KeepsShadow base modified → P (.patchPeer base modified)) (hkey : peer.metadata.key = i) :
    (ensureKeys peer).Within P (Relabelled i peer) := by
  subst hkey
  unfold ensureKeys
  split_ifs
  · exact within_ret ⟨rfl, rfl, fun _ => rfl⟩
  · apply within_updateSpec_of
    refine within_except (within_issue (hP.reads trivial))
      (fun err _ => within_ret fun _ h => nomatch h) fun key _ => within_ret ?_
    intro nodeCopy hok
    cases hok
    exact hpatch rfl rfl

/-! ## The handlers -/

section Tame

variable (hP : Tame i R P)

include hP

/-- A condition is set. -/
theorem within_withCondition (type : String) (status : ConditionStatus)
    (reason message : String) {st st' : LatticePeerStatus} (h : R st st') :
    (withCondition type status reason message st').Within P (R st) :=
  (within_withCondition_of (hP.reads trivial) type status reason message st').mono
    (fun _ => id) fun _ => hP.lenient.trans h

variable (hkey : peer.metadata.key = i)

include hkey

theorem within_updateStatus {f : LatticePeerStatus → Prog LatticePeerStatus}
    (hf : (f peer.status).Within P (R peer.status)) :
    (updateStatus peer f).Within P fun r => r.1.metadata.key = i :=
  (within_updateStatus_of hf fun _ => hP.status hkey).mono (fun _ => id) fun _ h => h.trans hkey

theorem within_failWith (type reason message : String) (err : GoError) :
    (failWith peer type reason message err).Within P fun _ => True := by
  refine within_bind (within_updateStatus hP hkey ?_) fun _ _ => within_pure _
  exact within_withCondition hP _ _ _ _ (hP.lenient.phase (by decide) _)

theorem within_lastReconcile
    (req : NamespacedName) : (lastReconcile lib peer req).Within P fun _ => True := by
  apply within_lastReconcile_of (hP.reads trivial) _ (hP.reads trivial)
    (fun _ => hP.reads trivial) hP.config (fun _ => hP.reads) req
  intro status hstatus
  exact hP.status hkey (hP.lenient.trans (hP.lenient.refl _) hstatus)

/-- Falling back to `Pending`. -/
theorem within_toPending :
    (updateStatus peer (withPhase .pending)).Within P fun r => r.1.metadata.key = i :=
  within_updateStatus hP hkey (within_ret (hP.lenient.phase (by decide) _))

theorem within_handleReady
    (req : NamespacedName) : (handleReady lib peer req).Within P fun _ => True := by
  unfold handleReady
  split_ifs
  · exact within_updateStatus_then (within_toPending hP hkey) fun _ _ => within_pure _
  · exact within_lastReconcile hP hkey req

theorem within_handleFailed :
    (handleFailed peer).Within P fun _ => True :=
  within_updateStatus_then (within_toPending hP hkey) fun _ _ => within_pure _

/-- Waiting for a network to get its subnet. -/
theorem within_waiting (message : String) (after : Outcome) :
    (do let _ ← updateStatus peer
          (withCondition NodeCondition.joiningNetwork .false Reason.configuring message)
        pure after : Prog Outcome).Within P fun _ => True := by
  refine within_bind (within_updateStatus hP hkey ?_) fun _ _ => within_pure _
  exact within_withCondition hP _ _ _ _ (hP.lenient.refl _)

theorem within_leaveReleased
    (hleave : ∀ st, st.activeNetwork = none → st.allocatedAddress = none → R peer.status st)
    (req : NamespacedName) :
    (leaveReleased lib peer req).Within P fun _ => True := by
  have hspec : (updateSpec peer fun p => pure (.ok { p with
      metadata := { p.metadata with labels := removeNetworkLabels p.metadata.labels } })).Within
      P (Relabelled i peer) := by
    apply within_updateLabels hP.toQuiet hkey
    apply within_ret
    intro nodeCopy hok
    cases hok
    exact ⟨_, rfl, sameButNetworks_remove _⟩
  refine within_bind hspec fun r hr => ?_
  obtain ⟨node, changed⟩ := r
  obtain ⟨hnode, hstatus, -⟩ := hr
  cases changed with
  | error err => exact within_failWith hP hnode _ _ _ err
  | ok _ =>
    have hleft : (leftStatus node.status).Within P (R node.status) :=
      within_withCondition hP _ _ _ _ (hstatus ▸ hleave _ rfl rfl)
    have hnext : ∀ node' : LatticePeer, node'.metadata.key = i →
        (if node'.spec.network.isSome then pure (.ok { requeueAfter := milliseconds 100 })
          else lastReconcile lib node' req).Within P fun _ => True := by
      intro node' hnode'
      split_ifs
      · exact within_pure _
      · exact within_lastReconcile hP hnode' req
    exact within_updateStatus_then (within_updateStatus hP hnode hleft) hnext

omit hkey in
theorem within_handleInitialization (hkeys : (ensureKeys peer).Within P (Relabelled i peer)) :
    (handleInitialization peer).Within P fun _ => True := by
  refine within_bind hkeys fun r hr => ?_
  obtain ⟨node, changed⟩ := r
  cases changed with
  | error err => exact within_pure _
  | ok changed =>
    cases changed with
    | true => exact within_pure _
    | false =>
      apply within_updateStatus_then (within_updateStatus hP hr.1 _) fun _ _ => within_pure _
      exact within_withCondition hP _ _ _ _ (hP.lenient.phase (by decide) _)

end Tame

/-! ## The three places that matter -/

theorem within_joinedStatus (hnow : P .now) (networkName address : String)
    (st : LatticePeerStatus) :
    (joinedStatus networkName address st).Within P
      fun st' => membership st' = (.ready, some networkName, some address) := by
  refine within_bind (within_withCondition_of hnow _ _ _ _ _) fun st' hst' => ?_
  refine (within_withCondition_of hnow _ _ _ _ _).mono (fun _ => id) fun st'' hst'' => ?_
  exact hst''.trans hst'

theorem within_releaseIP (hdelete : ∀ key, P (.deleteEndpoint key)) (ns address : String) :
    (releaseIP ns address).Within P fun _ => True := by
  unfold releaseIP
  split_ifs
  · exact within_pure _
  · cases Go.Net.parseIP address with
    | none => exact within_pure _
    | some ip =>
      refine within_except (within_issue (hdelete _)) (fun err _ => ?_) fun _ _ => within_pure _
      dsimp only
      split_ifs
      · exact within_pure _
      · exact within_pure _

theorem leavesPeers_claimFrom (network : LatticeNetwork) (peer : LatticePeer)
    (used : List String) (n : ℕ) (a : Go.Net.IPv4) :
    (claimFrom network peer used n a).Within Call.LeavesPeers fun _ => True := by
  induction n generalizing a with
  | zero => exact within_pure _
  | succ n ih =>
    unfold claimFrom
    split_ifs
    · exact ih _
    · refine within_except (within_issue trivial) (fun _ _ => within_pure _) fun _ _ => ?_
      refine within_except (within_issue trivial) (fun err _ => ?_) fun _ _ => within_pure _
      dsimp only
      split_ifs
      · exact ih _
      · exact within_pure _

theorem leavesPeers_allocateIP (network : LatticeNetwork) (peer : LatticePeer) :
    (allocateIP network peer).Within Call.LeavesPeers fun _ => True := by
  unfold allocateIP
  cases Go.Net.parseCIDR network.activeCIDR with
  | error text => exact within_pure _
  | ok net =>
    refine within_except (within_issue trivial) (fun _ _ => within_pure _) fun existing _ => ?_
    dsimp only
    split
    · exact within_pure _
    · exact leavesPeers_claimFrom _ _ _ _ _

/-! ## The calls themselves -/

/-- The calls that every reconcile of `i` may issue without touching the status. -/
def Call.Mild (i : NamespacedName) : Call → Prop
  | .applyConfigMap _ => True
  | .patchPeer base modified => modified.metadata.key = i ∧ KeepsShadow base modified
  | c => c.Reads

/-- The calls that every reconcile of `i` may issue. -/
def Call.Safe (i : NamespacedName) : Call → Prop
  | .patchPeerStatus base modified => modified = { base with status := modified.status } ∧
      base.metadata.key = i ∧ NoJoin base.status modified.status
  | c => c.Mild i

theorem quiet_mild (i : NamespacedName) : Quiet i (Call.Mild i) where
  reads {c} hc := by
    cases c <;> first | exact hc.elim | exact hc
  config _ := trivial
  labels hkey hlabels := ⟨hkey, hlabels.shadow⟩

theorem tame_safe (i : NamespacedName) : Tame i NoJoin (Call.Safe i) where
  reads {c} hc := by
    cases c <;> first | exact hc.elim | exact hc
  config _ := trivial
  labels hkey hlabels := ⟨hkey, hlabels.shadow⟩
  lenient := lenient_noJoin
  status hkey hchange := ⟨rfl, hkey, hchange⟩

end Wireflow.Controller
