/-
# What each handler does to its peer

A peer that is in a network is `Ready`, or it waits in `Pending` to leave it. Reconciles keep
this (`Fit`), and a reconcile that starts from such a peer leaves another one behind unless
the peer is settled (`Leads`). The handlers are treated one by one; `ensures_reconcile` puts
them together.

One branch of `handlePending` is left out by `Fit`: the peer is in the network its spec
names. There `joinNetwork` returns at once (`ensures_reconcile_inPlace`).
-/

import Wireflow.Theorems.Progress.Updates

namespace Wireflow.Controller

open Semantics Program
open Wireflow.Api Table

variable {lib : SelectorLibrary} {before : Table LatticePeer} {node node' : LatticePeer}
  {s : Session}

/-! ## The handlers -/

/-- The peer is where its spec wants it, and `Ready`. -/
def Settled (p : LatticePeer) : Prop :=
  p.status.phase = .ready ∧ p.status.activeNetwork = p.spec.network

/-- A peer that is in a network is `Ready`, or it waits in `Pending` to leave it. -/
def Placed (p : LatticePeer) : Prop :=
  ∀ n, p.status.activeNetwork = some n →
    p.status.phase = .ready ∨ (p.status.phase = .pending ∧ p.spec.network ≠ some n)

/-- What reconciles of a peer preserve. -/
structure Fit (p : LatticePeer) : Prop where
  alive : p.metadata.deletionTimestamp = none
  visible : isShadow p = false
  finalizer : p.status.phase ≠ .empty → finalizerName ∈ p.metadata.finalizers
  placed : Placed p

/-- What a handler does to a peer: others are spared, and from a peer that is fit it leads to
one that is fit, and to another one unless the peer was settled. -/
structure Leads (before : Table LatticePeer) (node : LatticePeer) (r : Outcome) (t : Session) :
    Prop where
  spared : Spared before node.metadata.key t
  fit : Fit node → ∃ p', t.world.store.peers.get node.metadata.key = some p' ∧ Fit p' ∧
    (r = .ok {} → p' = node → Settled node)

variable {r : Outcome} {t : Session} {p : LatticePeer}

theorem leads_of_stored (hfinal : finalizerName ∈ node.metadata.finalizers)
    (hspared : Spared before node.metadata.key t)
    (hstored : t.world.store.peers.get node.metadata.key = some p)
    (hsame : identity p = identity node) (hplaced : Placed node → Placed p)
    (hmoved : r = .ok {} → p = node → Settled node) : Leads before node r t := by
  refine ⟨hspared, fun hfit => ⟨p, hstored, ?_, hmoved⟩⟩
  simp only [identity, Prod.mk.injEq] at hsame
  obtain ⟨-, hdeleted, hfinalizers, hshadow⟩ := hsame
  exact ⟨hdeleted.trans hfit.alive, hshadow.trans hfit.visible, fun _ => hfinalizers ▸ hfinal,
    hplaced hfit.placed⟩

/-- The peer has been carried to a copy that is stored. -/
theorem Carried.leads (h : Carried before node node' t)
    (hfinal : finalizerName ∈ node.metadata.finalizers) (hplaced : Placed node → Placed node')
    (hmoved : r = .ok {} → node' = node → Settled node) : Leads before node r t := by
  have hkey := key_of_identity h.same
  refine leads_of_stored hfinal (hkey ▸ h.inHand.spared) ?_ h.same hplaced hmoved
  rw [← hkey]
  exact h.inHand.stored

/-- The same, when the configuration has been published after it. -/
theorem InPlace.leads (h : InPlace before node' p t) (hsame : identity node' = identity node)
    (hfinal : finalizerName ∈ node.metadata.finalizers) (hplaced : Placed node → Placed p)
    (hmoved : p = node → Settled node) : Leads before node r t := by
  have hkey := key_of_identity hsame
  refine leads_of_stored hfinal (hkey ▸ h.spared) ?_ (h.same.trans hsame) hplaced fun _ => hmoved
  rw [← hkey]
  exact h.stored

/-- A peer in no network is placed. -/
theorem placed_of_inactive (h : p.status.activeNetwork = none) : Placed p := by
  intro n hn
  rw [h] at hn
  cases hn

theorem placed_of_ready (h : p.status.phase = .ready) : Placed p := fun _ _ => .inl h

/-- A placed peer in another phase than the two is in no network. -/
theorem Placed.inactive (h : Placed p) (hready : p.status.phase ≠ .ready)
    (hpending : p.status.phase ≠ .pending) : p.status.activeNetwork = none := by
  cases hactive : p.status.activeNetwork with
  | none => rfl
  | some n =>
    rcases h n hactive with hphase | ⟨hphase, -⟩
    · exact absurd hphase hready
    · exact absurd hphase hpending

theorem leavesPeers_withCondition (type : String) (status : ConditionStatus)
    (reason message : String) (st : LatticePeerStatus) :
    (withCondition type status reason message st).Within Call.LeavesPeers
      fun st' => membership st' = membership st :=
  within_withCondition_of (P := Call.LeavesPeers) trivial type status reason message st

theorem ensures_failWith (h : Carried before node node' s)
    (hfinal : finalizerName ∈ node.metadata.finalizers)
    (hinactive : Placed node → node'.status.activeNetwork = none)
    (type reason message : String) (err : GoError) :
    (failWith node' type reason message err).Ensures serve (Leads before node) s := by
  have hcondition := leavesPeers_withCondition type .false reason message
    { node'.status with phase := .failed }
  apply (ensures_updateStatus hcondition h).bind
  intro result t hresult
  obtain ⟨peer, changed, rfl, hcarried, hstatus⟩ := hresult
  have hactive : peer.status.activeNetwork = node'.status.activeNetwork :=
    congrArg (fun m => m.2.1) hstatus
  refine hcarried.leads hfinal (fun hplaced => ?_) nofun
  exact placed_of_inactive (hactive.trans (hinactive hplaced))

/-- Publishing after a status update that makes the peer `Ready`. -/
theorem ensures_readyThen {f : LatticePeerStatus → Prog LatticePeerStatus}
    (h : Carried before node node' s) (hfinal : finalizerName ∈ node.metadata.finalizers)
    (hpending : node.status.phase = .pending) (req : NamespacedName)
    (hf : (f node'.status).Within Call.LeavesPeers fun st => st.phase = .ready)
    {next : LatticePeer → Prog Outcome}
    (hnext : ∀ peer, ∃ again : Bool, next peer = if again then
      pure (.ok { requeueAfter := milliseconds 100 }) else lastReconcile lib peer req) :
    (do let (peer, updated) ← updateStatus node' f
        match updated with
        | .error err => pure (.error err)
        | .ok _ => next peer : Prog Outcome).Ensures serve (Leads before node) s := by
  apply (ensures_updateStatus hf h).bind
  intro result t hresult
  obtain ⟨peer, changed, rfl, hcarried, hready⟩ := hresult
  dsimp only
  obtain ⟨again, hagain⟩ := hnext peer
  rw [hagain]
  split_ifs
  · exact hcarried.leads hfinal (fun _ => placed_of_ready hready) nofun
  · apply (ensures_lastReconcile hcarried.inHand req).mono
    intro r u hu
    obtain ⟨p, hp⟩ := hu
    have hphase : p.status.phase = .ready := (congrArg Prod.fst hp.membership).trans hready
    refine hp.leads hcarried.same hfinal (fun _ => placed_of_ready hphase) ?_
    -- the peer was `Pending` and is `Ready` now
    intro heq
    rw [heq, hpending] at hphase
    cases hphase

theorem needTransition_eq_false {p : LatticePeer} (h : ¬ needTransition p = true) :
    p.status.activeNetwork = p.spec.network := by
  unfold needTransition at h
  cases hspec : p.spec.network with
  | none =>
    cases hactive : p.status.activeNetwork with
    | none => rfl
    | some n => simp [hspec, hactive] at h
  | some m =>
    cases hactive : p.status.activeNetwork with
    | none => simp [hspec, hactive] at h
    | some n =>
      simp [hspec, hactive] at h
      rw [h]

section

variable (h : InHand before node s) (hfinal : finalizerName ∈ node.metadata.finalizers)

include h hfinal

theorem ensures_handleInitialization (hready : node.status.phase ≠ .ready)
    (hpending : node.status.phase ≠ .pending) :
    (handleInitialization node).Ensures serve (Leads before node) s := by
  have hkeys : (ensureKeys node).Ensures serve (fun r t =>
      (∃ err, r = (node, .error err) ∧ InHand before node t) ∨
      (r = (node, .ok false) ∧ InHand before node t) ∨
      ∃ node' p', r = (node', .ok true) ∧ Patched before node p' t) s := by
    unfold ensureKeys
    by_cases hkey : node.spec.privateKey ≠ ""
    · rw [if_pos hkey]
      exact .inr (.inl ⟨rfl, h⟩)
    · rw [if_neg hkey]
      refine (ensures_updateSpec
        (Q := fun r => ∀ nodeCopy, r = .ok nodeCopy → Relabels node nodeCopy) ?_
        (fun nodeCopy hQ => hQ nodeCopy rfl) h).mono ?_
      · -- the copy differs from the peer in its keys only
        refine within_except (within_issue trivial) (fun _ _ _ h => nomatch h)
          fun key _ nodeCopy hok => ?_
        cases hok
        exact ⟨rfl, rfl⟩
      intro r t hr
      rcases hr with ⟨err, -, hr⟩ | hr | ⟨node', p', hr, hpatched, -⟩
      · exact .inl ⟨err, hr⟩
      · exact .inr (.inl hr)
      · exact .inr (.inr ⟨node', p', hr, hpatched⟩)
  apply hkeys.bind
  intro result t hresult
  rcases hresult with ⟨err, rfl, hhand⟩ | ⟨rfl, hhand⟩ | ⟨node', p', rfl, hpatched⟩
  · exact (Carried.refl hhand).leads hfinal id nofun
  · have hcondition := leavesPeers_withCondition NodeCondition.initialized .true Reason.ready ""
      { node.status with phase := .pending }
    apply (ensures_updateStatus hcondition (.refl hhand)).bind
    intro result u hu
    obtain ⟨peer, changed, rfl, hcarried, hstatus⟩ := hu
    refine hcarried.leads hfinal (fun hplaced => placed_of_inactive ?_) nofun
    exact (congrArg (fun m => m.2.1) hstatus).trans (hplaced.inactive hready hpending)
  · refine leads_of_stored hfinal hpatched.spared hpatched.stored hpatched.same ?_ ?_
    · intro hplaced
      apply placed_of_inactive
      rw [hpatched.status]
      exact hplaced.inactive hready hpending
    · -- keys have been stored, so the version is another one
      intro _ heq
      have hversion := hpatched.version
      rw [heq] at hversion
      omega

section Pending

variable (hpending : node.status.phase = .pending) (req : NamespacedName)

include hpending

theorem ensures_leaveReleased :
    (leaveReleased lib node req).Ensures serve (Leads before node) s := by
  let unlabelled : LatticePeer := { node with
    metadata := { node.metadata with labels := removeNetworkLabels node.metadata.labels } }
  have hf : (pure (.ok unlabelled) : Prog (Except GoError LatticePeer)).Within Call.LeavesPeers
      (· = .ok unlabelled) := within_ret rfl
  have hrelabels : ∀ nodeCopy, (Except.ok nodeCopy : Except GoError LatticePeer) =
      .ok unlabelled → Relabels node nodeCopy := by
    intro nodeCopy hok
    cases hok
    exact ⟨rfl, (sameButNetworks_remove _).shadow⟩
  have hleft : ∀ st, (leftStatus st).Within Call.LeavesPeers fun st' => st'.phase = .ready :=
    fun st => (leavesPeers_withCondition _ _ _ _ _).mono (fun _ => id) fun _ hst =>
      congrArg Prod.fst hst
  have hnext : ∀ peer : LatticePeer, ∃ again : Bool, (if peer.spec.network.isSome then
      pure (.ok { requeueAfter := milliseconds 100 }) else lastReconcile lib peer req) =
      if again then pure (.ok { requeueAfter := milliseconds 100 }) else
        lastReconcile lib peer req := fun _ => ⟨_, rfl⟩
  apply (ensures_updateSpec hf hrelabels h).bind
  intro result t hresult
  -- removing labels cannot fail, and keeps the spec
  rcases hresult with ⟨err, herr, -⟩ | ⟨rfl, hhand⟩ | ⟨node', p', rfl, -, nodeCopy, hcopy, hspec⟩
  · cases herr
  · exact ensures_readyThen (.refl hhand) hfinal hpending req (hleft _) hnext
  · cases hcopy
    exact ensures_readyThen (hspec rfl).1 hfinal hpending req (hleft _) hnext

theorem ensures_leaveNetwork :
    (leaveNetwork lib node req).Ensures serve (Leads before node) s := by
  unfold leaveNetwork
  cases node.status.allocatedAddress with
  | none => exact ensures_leaveReleased h hfinal hpending req
  | some address =>
    apply (ensures_quiet (within_releaseIP (fun _ => trivial) _ address) h).bind
    intro answer t ht
    cases answer with
    | error err => exact (Carried.refl ht.2).leads hfinal id nofun
    | ok _ => exact ensures_leaveReleased ht.2 hfinal hpending req

theorem ensures_joinWithAddress (hinactive : Placed node → node.status.activeNetwork = none)
    (networkName : String) (network : LatticeNetwork) :
    (joinWithAddress lib node networkName network req).Ensures serve (Leads before node) s := by
  apply (ensures_quiet (leavesPeers_allocateIP network node) h).bind
  intro answer t ht
  cases answer with
  | error err => exact ensures_failWith (.refl ht.2) hfinal hinactive _ _ _ err
  | ok address =>
    have hjoined : (joinedStatus networkName address node.status).Within Call.LeavesPeers
        fun st => st.phase = .ready :=
      (within_joinedStatus trivial networkName address node.status).mono (fun _ => id)
        fun _ h => congrArg Prod.fst h
    exact ensures_readyThen (.refl ht.2) hfinal hpending req hjoined fun _ => ⟨false, rfl⟩

theorem ensures_joinNetwork (hinactive : Placed node → node.status.activeNetwork = none)
    (networkName : String) (hother : node.status.activeNetwork ≠ some networkName) :
    (joinNetwork lib node networkName req).Ensures serve (Leads before node) s := by
  unfold joinNetwork
  rw [if_neg hother]
  have hnetwork : (Client.getNetwork ⟨node.metadata.ns, networkName⟩).Within Call.LeavesPeers
      fun _ => True := within_issue trivial
  apply (ensures_quiet hnetwork h).bind
  intro answer t ht
  obtain ⟨-, hhand⟩ := ht
  cases answer with
  | error err => exact ensures_failWith (.refl hhand) hfinal hinactive _ _ _ err
  | ok network =>
    dsimp only
    split_ifs with hcidr
    · -- no subnet yet: the peer asks to be reconciled again
      have hcondition := leavesPeers_withCondition NodeCondition.joiningNetwork .false
        Reason.configuring ("Waiting for network " ++ quoted network.metadata.name ++
          " to assign an ActiveCIDR") node.status
      apply (ensures_updateStatus hcondition (.refl hhand)).bind
      intro result u hu
      obtain ⟨peer, changed, rfl, hcarried, hstatus⟩ := hu
      refine hcarried.leads hfinal (fun hplaced => placed_of_inactive ?_) nofun
      exact (congrArg (fun m => m.2.1) hstatus).trans (hinactive hplaced)
    · have hnetwork : (getNetwork node networkName).Within Call.LeavesPeers fun _ => True :=
        within_except (within_issue trivial) (fun _ _ => trivial) fun _ _ => trivial
      refine (ensures_updateSpec (Q := fun r => ∀ nodeCopy, r = .ok nodeCopy →
        Relabels node nodeCopy) ?_ (fun nodeCopy hQ => hQ nodeCopy rfl) hhand).bind ?_
      · refine within_except hnetwork (fun _ _ _ h => nomatch h) fun network _ nodeCopy hok => ?_
        cases hok
        refine ⟨rfl, ?_⟩
        rw [AList.lookup_insert_ne (networkLabelKey_ne_labelShadow _).symm]
        exact (sameButNetworks_remove _).shadow
      intro result u hu
      rcases hu with ⟨err, -, rfl, hhand'⟩ | ⟨rfl, hhand'⟩ | ⟨node', p', rfl, hpatched, -⟩
      · exact ensures_failWith (.refl hhand') hfinal hinactive _ _ _ err
      · exact ensures_joinWithAddress hhand' hfinal hpending req hinactive networkName network
      · refine leads_of_stored hfinal hpatched.spared hpatched.stored hpatched.same ?_
          nofun
        intro hplaced
        apply placed_of_inactive
        rw [hpatched.status]
        exact hinactive hplaced

theorem ensures_handlePending :
    (handlePending lib node req).Ensures serve (Leads before node) s := by
  unfold handlePending
  cases hspec : node.spec.network with
  | none =>
    cases hactive : node.status.activeNetwork with
    | none =>
      have hphase : (withPhase .ready node.status).Within Call.LeavesPeers
          fun st => st.phase = .ready := within_ret rfl
      exact ensures_readyThen (.refl h) hfinal hpending req hphase fun _ => ⟨false, rfl⟩
    | some activeNet => exact ensures_leaveNetwork h hfinal hpending req
  | some specNet =>
    cases hactive : node.status.activeNetwork with
    | none =>
      exact ensures_joinNetwork h hfinal hpending req (fun _ => hactive) specNet
        (by simp [hactive])
    | some activeNet =>
      dsimp only
      split_ifs with hswitch
      · exact ensures_leaveNetwork h hfinal hpending req
      · -- `joinNetwork` returns at once; a peer that is fit does not come here
        obtain rfl : activeNet = specNet := not_not.mp hswitch
        rw [joinNetwork, if_pos hactive]
        refine ⟨h.spared, fun hfit => ?_⟩
        rcases hfit.placed activeNet hactive with hready | ⟨-, hleaving⟩
        · rw [hpending] at hready
          cases hready
        · exact absurd hspec hleaving

end Pending

variable (req : NamespacedName)

theorem ensures_handleReady (hready : node.status.phase = .ready) :
    (handleReady lib node req).Ensures serve (Leads before node) s := by
  unfold handleReady
  split_ifs with hneed
  · have hphase : (withPhase .pending node.status).Within Call.LeavesPeers
        fun st => st = { node.status with phase := .pending } := within_ret rfl
    apply (ensures_updateStatus hphase (.refl h)).bind
    intro result t ht
    obtain ⟨peer, changed, rfl, hcarried, hstatus⟩ := ht
    refine hcarried.leads hfinal (fun _ n hn => .inr ?_) nofun
    rw [hcarried.network, hstatus]
    rw [hstatus] at hn
    refine ⟨rfl, fun hspec => ?_⟩
    have hactive : node.status.activeNetwork = some n := hn
    simp [needTransition, hspec, hactive] at hneed
  · apply (ensures_lastReconcile h req).mono
    intro r t ht
    obtain ⟨p, hp⟩ := ht
    have hphase : p.status.phase = .ready := (congrArg Prod.fst hp.membership).trans hready
    exact hp.leads rfl hfinal (fun _ => placed_of_ready hphase)
      fun _ => ⟨hready, needTransition_eq_false hneed⟩

theorem ensures_handleFailed (hfailed : node.status.phase = .failed) :
    (handleFailed node).Ensures serve (Leads before node) s := by
  have hphase : (withPhase .pending node.status).Within Call.LeavesPeers
      fun st => st.activeNetwork = node.status.activeNetwork := within_ret rfl
  apply (ensures_updateStatus hphase (.refl h)).bind
  intro result t ht
  obtain ⟨peer, changed, rfl, hcarried, hstatus⟩ := ht
  refine hcarried.leads hfinal (fun hplaced => placed_of_inactive ?_) nofun
  exact hstatus.trans (hplaced.inactive (by simp [hfailed]) (by simp [hfailed]))

theorem ensures_handlePhase :
    (handlePhase lib node req).Ensures serve (Leads before node) s := by
  unfold handlePhase
  cases hphase : node.status.phase with
  | empty | provisioning =>
    exact ensures_handleInitialization h hfinal (by simp [hphase]) (by simp [hphase])
  | pending => exact ensures_handlePending h hfinal hphase req
  | ready => exact ensures_handleReady h hfinal req hphase
  | failed => exact ensures_handleFailed h hfinal hphase

end

/-! ## A whole reconcile -/

variable {key : NamespacedName}

theorem ensures_getPeer (hcalm : Calm s.choices) {p : LatticePeer}
    (hstored : s.world.store.peers.get key = some p) :
    (Client.getPeer key).Ensures serve
      (fun r t => r = .ok p ∧ InHand s.world.store.peers p t) s := by
  obtain ⟨hfault, hlag⟩ := hcalm 0
  have hseen : s.world.seen 0 = s.world.store := rfl
  have hexec : exec (.getPeer key) (s.choices 0) s.world = (.ok p, s.world.hold key p) := by
    simp only [exec, hlag, hseen, hstored, found, Choice.read, hfault]
  have hworld : (serve (.getPeer key) s).2.world = s.world.hold key p := by
    rw [serve, hexec]
  obtain rfl : p.metadata.key = key := key_of_get hstored
  refine ⟨congrArg Prod.fst hexec, hcalm.tail, ?_, fun k _ => ?_⟩
  · exact (congrArg (fun w : World => w.store.peers.get _) hworld).trans hstored
  · exact (congrArg (fun w : World => w.store.peers.get k) hworld).trans rfl

/-- The peer after its finalizers have been set. -/
def withFinalizers (node : LatticePeer) (finalizers : List String) : LatticePeer :=
  { node with metadata := { node.metadata with finalizers := finalizers } }

/-- A full update of the copy in hand is not stale. -/
theorem ensures_setFinalizers (h : InHand before node s) (finalizers : List String) :
    (Client.updatePeer (withFinalizers node finalizers)).Ensures serve (fun r t => r = .ok () ∧
      Spared before node.metadata.key t ∧ (node.metadata.deletionTimestamp = none →
        t.world.store.peers.get node.metadata.key =
          some (updatedPeer (withFinalizers node finalizers) node))) s := by
  let updated := updatedPeer (withFinalizers node finalizers) node
  let peers := if updated.metadata.deletionTimestamp.isSome && updated.metadata.finalizers.isEmpty
    then s.world.store.peers.erase node.metadata.key else s.world.store.peers.put updated
  have hkey : (withFinalizers node finalizers).metadata.key = node.metadata.key := rfl
  have hupdate : s.world.store.updatePeer (withFinalizers node finalizers) =
      .ok ((), { s.world.store with peers := peers }) := by
    rw [Store.updatePeer, Store.findPeer, hkey, h.stored]
    unfold peers
    by_cases hgone : (updated.metadata.deletionTimestamp.isSome &&
        updated.metadata.finalizers.isEmpty) = true
    · rw [if_pos hgone]
      exact (if_neg (not_not.mpr rfl)).trans (if_pos hgone)
    · rw [if_neg hgone]
      exact (if_neg (not_not.mpr rfl)).trans (if_neg hgone)
  have hexec : exec (.updatePeer (withFinalizers node finalizers)) (s.choices 0) s.world =
      (.ok (), s.world.commit { s.world.store with peers := peers }) := by
    simp only [exec, hupdate, Choice.write, (h.calm 0).1]
  have hpeers : (serve (.updatePeer (withFinalizers node finalizers)) s).2.world.store.peers =
      peers := by
    rw [serve, hexec]
    rfl
  refine ⟨congrArg Prod.fst hexec, fun k hk => ?_, fun halive => ?_⟩
  · refine (congrArg (get · k) hpeers).trans ?_
    unfold peers
    split_ifs
    · exact (get_erase_ne hk).trans (h.spared k hk)
    · exact (get_put_ne hk).trans (h.spared k hk)
  · have hkept : updated.metadata.deletionTimestamp = none := halive
    refine (congrArg (get · _) hpeers).trans ?_
    unfold peers
    rw [hkept]
    exact get_put_self _ updated

/-- **What a reconcile does to the peer it is for.** -/
theorem ensures_reconcile (lib : SelectorLibrary) (hcalm : Calm s.choices) {p : LatticePeer}
    (hstored : s.world.store.peers.get key = some p) :
    (reconcile lib key).Ensures serve (Leads s.world.store.peers p) s := by
  apply (ensures_getPeer hcalm hstored).bind
  intro answer t ht
  obtain ⟨rfl, hhand⟩ := ht
  have hdeleted : ∀ r : Outcome, p.metadata.deletionTimestamp.isSome = true → ∀ u : Session,
      Spared s.world.store.peers p.metadata.key u → Leads s.world.store.peers p r u := by
    intro r hdeleted u hspared
    refine ⟨hspared, fun hfit => ?_⟩
    rw [hfit.alive] at hdeleted
    cases hdeleted
  dsimp only
  split_ifs with hdel hfinal hfinal' hshadow
  · rw [handleDelete, if_neg (not_not.mpr hfinal)]
    apply (ensures_setFinalizers hhand _).bind
    intro answer u hu
    obtain ⟨rfl, hspared, -⟩ := hu
    exact hdeleted _ hdel u hspared
  · exact hdeleted _ hdel t hhand.spared
  · refine ⟨hhand.spared, fun hfit => ?_⟩
    have hvisible := hfit.visible
    simp [isShadow, hshadow] at hvisible
  · exact ensures_handlePhase hhand hfinal' key
  · -- only the finalizer is added
    apply (ensures_setFinalizers hhand _).bind
    intro answer u hu
    obtain ⟨rfl, hspared, hput⟩ := hu
    refine ⟨hspared, fun hfit => ⟨_, hput hfit.alive, ?_, by rintro ⟨⟩⟩⟩
    exact ⟨hfit.alive, hfit.visible, fun _ => by simp [updatedPeer, withFinalizers],
      hfit.placed⟩

/-- A reconcile of a peer that is not there leaves the store as it is. -/
theorem ensures_reconcile_absent (lib : SelectorLibrary) (hcalm : Calm s.choices)
    (habsent : s.world.store.peers.get key = none) :
    (reconcile lib key).Ensures serve
      (fun _ t => t.world.store.peers = s.world.store.peers) s := by
  obtain ⟨hfault, hlag⟩ := hcalm 0
  have hseen : s.world.seen 0 = s.world.store := rfl
  have hexec : exec (.getPeer key) (s.choices 0) s.world =
      (.error (notFoundError peerResource key.name), s.world) := by
    simp only [exec, hlag, hseen, habsent, found, Choice.read, hfault]
  have hget : (Client.getPeer key).Ensures serve (fun r t =>
      r = .error (notFoundError peerResource key.name) ∧ t.world = s.world) s :=
    ⟨congrArg Prod.fst hexec, congrArg Prod.snd hexec⟩
  apply hget.bind
  intro answer t ht
  obtain ⟨rfl, hworld⟩ := ht
  exact congrArg (fun w : World => w.store.peers) hworld

/-- **The one state nothing leads out of.** A reconcile of a peer that is `Pending` in the
network it should be in returns at once. -/
theorem ensures_reconcile_inPlace (lib : SelectorLibrary) (hcalm : Calm s.choices) {p : LatticePeer}
    {n : String} (hstored : s.world.store.peers.get key = some p)
    (halive : p.metadata.deletionTimestamp = none) (hvisible : isShadow p = false)
    (hfinal : finalizerName ∈ p.metadata.finalizers) (hpending : p.status.phase = .pending)
    (hactive : p.status.activeNetwork = some n) (hspec : p.spec.network = some n) :
    (reconcile lib key).Ensures serve
      (fun r t => r = .ok {} ∧ t.world.store.peers.get key = some p) s := by
  apply (ensures_getPeer hcalm hstored).bind
  intro answer t ht
  obtain ⟨rfl, hhand⟩ := ht
  obtain rfl : p.metadata.key = key := key_of_get hstored
  have hlabel : ¬ p.metadata.labels.get labelShadow = "true" := by
    simpa [isShadow] using hvisible
  simp only [halive, Option.isSome_none, Bool.false_eq_true, if_false, hfinal, not_true_eq_false,
    hlabel, handlePhase, hpending, handlePending, hspec, hactive, ne_eq, joinNetwork, if_true]
  exact ⟨rfl, hhand.stored⟩

end Wireflow.Controller
