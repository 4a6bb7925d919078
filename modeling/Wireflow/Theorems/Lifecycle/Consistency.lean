/-
# Leases and networks

A peer that is `Ready` in a network should have an address of that network, and the endpoint
of the address should name the peer (`LeaseConsistent`). The contract under which reconcilers
keep it, the calls that do not join a network, and what a reconciler knows of the copy of its
peer. `Wireflow.Theorems.Lifecycle.ConsistentRuns` has the runs.
-/

import Wireflow.Theorems.Leases.Invariant
import Wireflow.Theorems.Lifecycle.OneLease

namespace Wireflow.Controller

open Go.Net
open Semantics
open Wireflow.Api Table

/-! ## The property -/

/-- The address lies in the subnet of the network, and its endpoint names the peer. -/
structure Secured (s : Store) (q : NamespacedName) (name address : String)
    (ep : LatticeEndpoint) : Prop where
  inside : ∃ network net ip, s.networks.get ⟨q.ns, name⟩ = some network ∧
    parseCIDR network.activeCIDR = .ok net ∧ parseIP address = some ip ∧
    net.contains ip = true ∧ s.endpoints.get ⟨q.ns, leaseName ip⟩ = some ep
  peer : ep.peerRef = q.name

/-- Peers that are `Ready` in a network hold a lease in it. -/
def LeaseConsistent (s : Store) : Prop :=
  ∀ q p name, s.peers.get q = some p → isShadow p = false → p.status.phase = .ready →
    p.status.activeNetwork = some name →
    ∃ address ep, p.status.allocatedAddress = some address ∧ Secured s q name address ep

/-- The same for one peer, with the peer as the owner of its lease. -/
def LeasedAt (s : Store) (q : NamespacedName) : Prop :=
  ∀ p name, s.peers.get q = some p → isShadow p = false → p.status.phase = .ready →
    p.status.activeNetwork = some name →
    ∃ address ep, p.status.allocatedAddress = some address ∧ Secured s q name address ep ∧
      ep.metadata.controllerRef = some p.metadata.uid

/-- What all reconcilers keep together. -/
structure Steadfast (s : Store) : Prop where
  leased : ∀ q, LeasedAt s q
  /-- A lease is named after its address. -/
  named : ∀ k ep, s.endpoints.get k = some ep → releaseName ep.address = some k.name

/-! ## What others leave to a peer -/

/-- Two versions of a peer that differ at most in spec and labels. -/
structure SamePeer (p p' : LatticePeer) : Prop where
  status : p'.status = p.status
  uid : p'.metadata.uid = p.metadata.uid
  finalizers : p'.metadata.finalizers = p.metadata.finalizers
  shadow : isShadow p' = isShadow p

theorem SamePeer.refl (p : LatticePeer) : SamePeer p p := ⟨rfl, rfl, rfl, rfl⟩

theorem SamePeer.trans {p q r : LatticePeer} (h : SamePeer p q) (h' : SamePeer q r) :
    SamePeer p r :=
  ⟨h'.status.trans h.status, h'.uid.trans h.uid, h'.finalizers.trans h.finalizers,
    h'.shadow.trans h.shadow⟩

/-- What the reconciler of `i` relies on. -/
structure Kept (i : NamespacedName) (l l' : Ledger) : Prop where
  /-- A peer with the finalizer stays. -/
  stays : ∀ p, l.world.store.peers.get i = some p → finalizerName ∈ p.metadata.finalizers →
    ∃ p', l'.world.store.peers.get i = some p' ∧ SamePeer p p'
  /-- A peer is the one that was there, or a new one. -/
  origin : ∀ p', l'.world.store.peers.get i = some p' → p'.status = {} ∨
    ∃ p, l.world.store.peers.get i = some p ∧ SamePeer p p'
  /-- A network keeps its subnet. -/
  network : ∀ key n, l.world.store.networks.get key = some n → n.activeCIDR ≠ "" →
    ∃ n', l'.world.store.networks.get key = some n' ∧ n'.activeCIDR = n.activeCIDR
  /-- Leases that the peer owns stay. -/
  lease : ∀ k ep p, l.world.store.endpoints.get k = some ep → Names i k ep →
    l.world.store.peers.get i = some p → ep.metadata.controllerRef = some p.metadata.uid →
    l'.world.store.endpoints.get k = some ep
  copy : l'.copies i = l.copies i

variable {i j : NamespacedName} {l l' : Ledger}

theorem Kept.refl (i : NamespacedName) (l : Ledger) : Kept i l l where
  stays p hp _ := ⟨p, hp, .refl p⟩
  origin p hp := .inr ⟨p, hp, .refl p⟩
  network _ n hn _ := ⟨n, hn, rfl⟩
  lease _ _ _ hk _ _ _ := hk
  copy := rfl

/-- Of a ledger, only the store matters and what is noted of the peer. -/
theorem Kept.of_store {s : Store} (hstore : l'.world.store = s) (hcopy : l'.copies j = l.copies j)
    (h : Kept j l { l with world := l.world.commit s }) : Kept j l l' := by
  obtain ⟨⟨store, past, held⟩, copies⟩ := l'
  subst hstore
  exact { h with copy := hcopy }

theorem Kept.of_same (hstore : l'.world.store = l.world.store) (hcopy : l'.copies j = l.copies j) :
    Kept j l l' :=
  .of_store hstore hcopy { Kept.refl j l with }

/-- Only the peer `i` has changed. -/
theorem kept_peers {peers : Table LatticePeer}
    (hothers : ∀ q, q ≠ i → peers.get q = l.world.store.peers.get q)
    (hstays : ∀ p, l.world.store.peers.get i = some p → finalizerName ∈ p.metadata.finalizers →
      ∃ p', peers.get i = some p' ∧ SamePeer p p')
    (horigin : ∀ p', peers.get i = some p' → p'.status = {} ∨
      ∃ p, l.world.store.peers.get i = some p ∧ SamePeer p p') (j : NamespacedName) :
    Kept j l { l with world := l.world.commit { l.world.store with peers := peers } } := by
  by_cases hj : j = i
  · subst hj
    exact { Kept.refl j l with stays := hstays, origin := horigin }
  · have hpeer := hothers j hj
    exact { Kept.refl j l with
      stays := fun p hp _ => ⟨p, hpeer.trans hp, .refl p⟩
      origin := fun p hp => .inr ⟨p, hpeer.symm.trans hp, .refl p⟩ }

/-- One peer has been replaced by a version of it. -/
theorem kept_put {p : LatticePeer} (p' : LatticePeer) (hp : l.world.store.peers.get i = some p)
    (hkey : p'.metadata.key = i) (hsame : SamePeer p p') (j : NamespacedName) :
    Kept j l { l with
      world := l.world.commit { l.world.store with peers := l.world.store.peers.put p' } } := by
  have hput : (l.world.store.peers.put p').get i = some p' := hkey ▸ get_put_self _ p'
  refine kept_peers (fun q hq => get_put_ne fun heq => hq (heq.trans hkey))
    (fun q hq _ => ⟨p', hput, ?_⟩) (fun q hq => .inr ⟨p, hp, ?_⟩) j
  · rwa [← Option.some.inj (hp.symm.trans hq)]
  · rwa [← Option.some.inj (hput.symm.trans hq)]

/-- A lease survives what its owner relies on. -/
theorem Secured.kept {p : LatticePeer} {name address : String} {ep : LatticeEndpoint}
    (h : Secured l.world.store i name address ep) (hkept : Kept i l l')
    (hp : l.world.store.peers.get i = some p)
    (howner : ep.metadata.controllerRef = some p.metadata.uid) :
    Secured l'.world.store i name address ep := by
  obtain ⟨⟨network, net, ip, hnetwork, hnet, hip, hinside, hget⟩, hpeer⟩ := h
  have hcidr : network.activeCIDR ≠ "" := by
    intro hempty
    rw [hempty] at hnet
    cases hnet
  obtain ⟨network', hnetwork', hsame⟩ := hkept.network _ network hnetwork hcidr
  refine ⟨⟨network', net, ip, hnetwork', hsame ▸ hnet, hip, hinside, ?_⟩, hpeer⟩
  exact hkept.lease _ ep p hget ⟨rfl, hpeer⟩ hp howner

theorem LeasedAt.kept (h : LeasedAt l.world.store i) (hkept : Kept i l l') :
    LeasedAt l'.world.store i := by
  intro p' name hp' hvisible hready hactive
  rcases hkept.origin p' hp' with hnew | ⟨p, hp, hsame⟩
  · rw [hnew] at hready
    cases hready
  · rw [hsame.status] at hready hactive ⊢
    rw [hsame.shadow] at hvisible
    obtain ⟨address, ep, haddress, hsecured, howner⟩ := h p name hp hvisible hready hactive
    refine ⟨address, ep, haddress, hsecured.kept hkept hp howner, ?_⟩
    rw [hsame.uid]
    exact howner

/-! ## The runs under consideration -/

/-- The smallest and the largest address that `AllocateIP` tries lie in the subnet. -/
def Roomy (net : IPNet) : Prop :=
  (startAddr net).toNat ≤ (endAddr net).toNat →
    net.contains (.v4 (startAddr net)) = true ∧ net.contains (.v4 (endAddr net)) = true

/-- The endpoint is owned by this very peer and lies in the subnet. -/
def Fits (p : LatticePeer) (net : IPNet) (ep : LatticeEndpoint) : Prop :=
  ep.metadata.controllerRef = some p.metadata.uid ∧
    ((parseIP ep.address).map net.contains).getD false = true

/-- `AllocateIP` for the version `p` of the peer, in the given store: the subnet has room, and
endpoints of the peer fit. -/
def AllocationFits (s : Store) (i : NamespacedName) (p : LatticePeer) : Prop :=
  match p.spec.network.bind fun name => s.networks.get ⟨i.ns, name⟩ with
  | none => True
  | some network =>
      match parseCIDR network.activeCIDR with
      | .error _ => True
      | .ok net => Roomy net ∧
          ∀ ep ∈ s.endpoints.list i.ns Go.Order.inPlace, ep.peerRef = i.name → Fits p net ep

/-- What is required of a call. -/
def Sane (i : NamespacedName) (choice : Choice) (l : Ledger) : Call → Prop
  | .getPeer _ => choice.lag = 0
  | .listEndpoints _ => choice.lag = 0 ∧ ∀ p ∈ l.copies i, AllocationFits l.world.store i p
  | .deleteEndpoint key => ∀ ep ∈ l.world.store.endpoints.get key, ep.peerRef = i.name
  | _ => True

/-- What is required of a happening: a network is given its subnet once. -/
def Orderly (s : Store) : Happening → Prop
  | .disturbance (.setActiveCIDR key _) => ∀ n ∈ s.networks.get key, n.activeCIDR = ""
  | _ => True

def consistencyContract : Contract NamespacedName Call Ledger Choice Happening where
  inv l := Steadfast l.world.store
  rely := Kept
  guar i l l' := ∀ j, j ≠ i → Kept j l l'
  admits i c choice l := Sane i choice l c
  admitsEnv e l := Orderly l.world.store e

instance (net : IPNet) : Decidable (Roomy net) := inferInstanceAs (Decidable (_ → _ ∧ _))

instance (p : LatticePeer) (net : IPNet) (ep : LatticeEndpoint) : Decidable (Fits p net ep) :=
  inferInstanceAs (Decidable (_ ∧ _))

instance (s : Store) (i : NamespacedName) (p : LatticePeer) : Decidable (AllocationFits s i p) := by
  unfold AllocationFits
  split
  · exact .isTrue trivial
  · split
    · exact .isTrue trivial
    · infer_instance

instance (i : NamespacedName) (c : Call) (choice : Choice) (l : Ledger) :
    Decidable (consistencyContract.admits i c choice l) :=
  match c with
  | .getPeer _ => inferInstanceAs (Decidable (choice.lag = 0))
  | .listEndpoints _ => inferInstanceAs (Decidable (_ ∧ _))
  | .deleteEndpoint key =>
      inferInstanceAs (Decidable (∀ ep ∈ l.world.store.endpoints.get key, ep.peerRef = i.name))
  | .updatePeer _ | .patchPeer _ _ | .patchPeerStatus _ _ | .getNetwork _ | .listPeers _ _ _
  | .listPolicies _ | .createEndpoint _ | .getConfigMap _ | .applyConfigMap _
  | .setControllerReference | .generatePrivateKey | .now | .mapOrders
  | .generateConfigVersion => .isTrue trivial

instance (e : Happening) (l : Ledger) : Decidable (consistencyContract.admitsEnv e l) :=
  match e with
  | .disturbance (.setActiveCIDR key _) =>
      inferInstanceAs (Decidable (∀ n ∈ l.world.store.networks.get key, n.activeCIDR = ""))
  | .disturbance (.setSpecNetwork _ _) | .disturbance (.catchUp _) | .createPeer _
  | .deletePeer _ _ | .collect _ => .isTrue trivial

/-! ## One call -/

/-- A step that keeps what everybody relies on keeps the invariant. -/
theorem steadfast_of_kept (hinv : Steadfast l.world.store)
    (hothers : ∀ j, j ≠ i → Kept j l l') (hown : LeasedAt l'.world.store i)
    (hnamed : ∀ k ep, l'.world.store.endpoints.get k = some ep →
      releaseName ep.address = some k.name) : Steadfast l'.world.store := by
  refine ⟨fun q => ?_, hnamed⟩
  by_cases hq : q = i
  · subst hq
    exact hown
  · exact (hinv.leased q).kept (hothers q hq)

variable {c : Call}

theorem mild_leaves (hc : c.Mild i) : c.LeavesEndpoints ∧ ∀ key, c ≠ .getPeer key := by
  cases c with
  | getPeer | createEndpoint | deleteEndpoint => exact hc.elim
  | _ => exact ⟨trivial, by simp⟩

/-- What is seen of a write by a peer that it leaves alone. -/
theorem kept_at (hleaves : c.LeavesEndpoints) (hread : ∀ key, c ≠ .getPeer key) {choice : Choice}
    (hpeer : (exec c choice l.world).2.store.peers.get j = l.world.store.peers.get j) :
    Kept j l (observe c choice l).2 := by
  obtain ⟨hendpoints, hnetworks⟩ := rest_exec hleaves choice l.world
  rw [← observe_world] at hendpoints hnetworks hpeer
  refine ⟨fun p hp _ => ⟨p, hpeer.trans hp, .refl p⟩, fun p hp => .inr ⟨p, hpeer.symm.trans hp,
    .refl p⟩, fun key n hn _ => ⟨n, ?_, rfl⟩, fun k ep _ hk _ _ _ => ?_,
    congrFun (observe_copies hread choice l) j⟩
  · rw [hnetworks]
    exact hn
  · rw [hendpoints]
    exact hk

/-- Calls that do not touch the status keep what everybody relies on, the caller included. -/
theorem kept_mild (hc : c.Mild i) (choice : Choice) (l : Ledger) (j : NamespacedName) :
    Kept j l (observe c choice l).2 := by
  obtain ⟨hleaves, hread⟩ := mild_leaves hc
  have hquiet : c.LeavesPeers → Kept j l (observe c choice l).2 := by
    intro hpeers
    apply kept_at hleaves hread
    rw [peers_exec hpeers choice l.world]
  cases c with
  | updatePeer | patchPeerStatus => exact hc.elim
  | patchPeer base modified =>
    obtain ⟨hkey, hshadow⟩ := hc
    rcases store_patchPeer choice l.world base modified with h | ⟨current, hget, hcurrent, h⟩
    · exact .of_same h rfl
    · have hversion : SamePeer current (patchedPeer base modified current) :=
        ⟨rfl, rfl, rfl, isShadow_patchedPeer hshadow⟩
      exact .of_store h rfl (kept_put (patchedPeer base modified current) hget hcurrent hversion j)
  | _ => exact hquiet trivial

theorem step_mild (hc : c.Mild i) (choice : Choice) (hinv : consistencyContract.inv l) :
    consistencyContract.inv (observe c choice l).2 ∧
      consistencyContract.guar i l (observe c choice l).2 := by
  have hkept := kept_mild hc choice l
  have hendpoints := (rest_exec (mild_leaves hc).1 choice l.world).1
  rw [← observe_world] at hendpoints
  refine ⟨steadfast_of_kept hinv (fun j _ => hkept j) ((hinv.leased i).kept (hkept i)) ?_,
    fun j _ => hkept j⟩
  rw [hendpoints]
  exact hinv.named

/-- A write to the peer `i`, given that it holds a lease afterwards if it has to. -/
theorem step_write (hleaves : c.LeavesEndpoints) (hread : ∀ key, c ≠ .getPeer key)
    {choice : Choice} (hinv : consistencyContract.inv l)
    (hpeers : ∀ j, j ≠ i → (exec c choice l.world).2.store.peers.get j = l.world.store.peers.get j)
    (hown : LeasedAt (exec c choice l.world).2.store i) :
    consistencyContract.inv (observe c choice l).2 ∧
      consistencyContract.guar i l (observe c choice l).2 := by
  have hothers := fun j hj => kept_at hleaves hread (hpeers j hj)
  refine ⟨steadfast_of_kept hinv hothers ?_ ?_, hothers⟩
  · rw [observe_world]
    exact hown
  · rw [observe_world, (rest_exec hleaves choice l.world).1]
    exact hinv.named

theorem leasedAt_put {new : LatticePeer} {s : Store} (hkey : new.metadata.key = i)
    (h : ∀ name, isShadow new = false → new.status.phase = .ready →
      new.status.activeNetwork = some name →
      ∃ address ep, new.status.allocatedAddress = some address ∧ Secured s i name address ep ∧
        ep.metadata.controllerRef = some new.metadata.uid) :
    LeasedAt { s with peers := s.peers.put new } i := by
  intro p name hp hvisible hready hactive
  have hput : (s.peers.put new).get i = some new := hkey ▸ get_put_self _ new
  obtain rfl := Option.some.inj (hput.symm.trans hp)
  obtain ⟨address, ep, haddress, hsecured, howner⟩ := h name hvisible hready hactive
  exact ⟨address, ep, haddress, ⟨hsecured.inside, hsecured.peer⟩, howner⟩

theorem step_status (base modified : LatticePeer) (hkey : modified.metadata.key = i)
    (choice : Choice) (hinv : consistencyContract.inv l)
    (hown : ∀ current, l.world.store.peers.get i = some current →
      LeasedAt { l.world.store with
        peers := l.world.store.peers.put (patchedPeerStatus base modified current) } i) :
    consistencyContract.inv (observe (.patchPeerStatus base modified) choice l).2 ∧
      consistencyContract.guar i l (observe (.patchPeerStatus base modified) choice l).2 := by
  subst hkey
  apply step_write (c := .patchPeerStatus base modified) trivial (by simp) hinv
  all_goals
    rcases store_patchPeerStatus choice l.world base modified with h | ⟨current, hget, hcurrent, h⟩
    all_goals rw [h]
  · exact fun _ _ => rfl
  · exact fun j hj => get_put_ne fun heq => hj (heq.trans hcurrent)
  · exact hinv.leased _
  · exact hown current hget

/-- A change of status that joins nothing. -/
theorem step_noJoin {base : LatticePeer} {status : LatticePeerStatus}
    (hkey : base.metadata.key = i) (hchange : NoJoin base.status status) (choice : Choice)
    (hinv : consistencyContract.inv l) :
    consistencyContract.inv
        (observe (.patchPeerStatus base { base with status := status }) choice l).2 ∧
      consistencyContract.guar i l
        (observe (.patchPeerStatus base { base with status := status }) choice l).2 := by
  apply step_status base { base with status := status } hkey choice hinv
  intro current hget
  refine leasedAt_put (by exact key_of_get hget) fun name hvisible hready hactive => ?_
  dsimp only [patchedPeerStatus] at hready hactive ⊢
  rcases hchange with ⟨hnetwork, haddress, hphase⟩ | ⟨hwas, hnone, -⟩
  · -- network and address are those the peer has now
    have hactive' : current.status.activeNetwork = some name := by
      simpa [mergeStatus, hnetwork] using hactive
    have hready' : current.status.phase = .ready := by
      rcases hphase with hsame | hother
      · simpa [mergeStatus, hsame] using hready
      · by_cases hsame : base.status.phase = status.phase
        · simpa [mergeStatus, hsame] using hready
        · simp only [mergeStatus, mergeField, hsame, if_false] at hready
          exact absurd hready hother
    obtain ⟨address, ep, ha, hsecured, howner⟩ :=
      hinv.leased i current name hget hvisible hready' hactive'
    refine ⟨address, ep, ?_, hsecured, howner⟩
    simpa [mergeStatus, haddress] using ha
  · -- the peer leaves its network
    have hne : base.status.activeNetwork ≠ status.activeNetwork := by
      rw [hnone]
      exact hwas
    have hleft : (mergeStatus base.status status current.status).activeNetwork = none :=
      (if_neg hne).trans hnone
    rw [hleft] at hactive
    cases hactive

/-! ## What a reconciler knows of its copy -/

/-- The copy in hand is noted, and it is what is stored unless the peer has been replaced. -/
structure InTouch (i : NamespacedName) (node : LatticePeer) (l : Ledger) : Prop where
  copy : l.copies i = some node
  origin : ∀ p, l.world.store.peers.get i = some p → p.status = {} ∨ SamePeer node p
  stays : finalizerName ∈ node.metadata.finalizers →
    ∃ p, l.world.store.peers.get i = some p ∧ SamePeer node p

/-- The network to join has the subnet it had when it was read. -/
structure Joining (i : NamespacedName) (node : LatticePeer) (name : String)
    (network : LatticeNetwork) (l : Ledger) : Prop where
  inTouch : InTouch i node l
  subnet : network.activeCIDR ≠ "" ∧ ∃ n, l.world.store.networks.get ⟨i.ns, name⟩ = some n ∧
    n.activeCIDR = network.activeCIDR

variable {node : LatticePeer} {name : String} {network : LatticeNetwork}

theorem InTouch.kept (h : InTouch i node l) (hkept : Kept i l l') : InTouch i node l' := by
  refine ⟨hkept.copy.trans h.copy, fun p' hp' => ?_, fun hfinal => ?_⟩
  · rcases hkept.origin p' hp' with hnew | ⟨p, hp, hsame⟩
    · exact .inl hnew
    · rcases h.origin p hp with hempty | hversion
      · exact .inl (hsame.status.trans hempty)
      · exact .inr (hversion.trans hsame)
  · obtain ⟨p, hp, hversion⟩ := h.stays hfinal
    have hfinal' : finalizerName ∈ p.metadata.finalizers := hversion.finalizers ▸ hfinal
    obtain ⟨p', hp', hsame⟩ := hkept.stays p hp hfinal'
    exact ⟨p', hp', hversion.trans hsame⟩

theorem Joining.kept (h : Joining i node name network l) (hkept : Kept i l l') :
    Joining i node name network l' := by
  obtain ⟨hcidr, n, hn, hsame⟩ := h.subnet
  obtain ⟨n', hn', hsame'⟩ := hkept.network _ n hn (hsame ▸ hcidr)
  exact ⟨h.inTouch.kept hkept, hcidr, n', hn', hsame'.trans hsame⟩

/-- While a peer is `Pending`, no lease is required of it. -/
theorem InTouch.leasedAt_of_pending (h : InTouch i node l) (hpending : node.status.phase = .pending)
    {s : Store} (hpeers : s.peers = l.world.store.peers) : LeasedAt s i := by
  intro p _ hp _ hready _
  rw [hpeers] at hp
  rcases h.origin p hp with hnew | hsame
  · rw [hnew] at hready
    cases hready
  · rw [hsame.status, hpending] at hready
    cases hready

theorem manners (i : NamespacedName) :
    Manners consistencyContract observe i (InTouch i) (Joining i) where
  stable _ _ _ h hkept := h.kept hkept
  stableJoin _ _ _ _ _ h hkept := h.kept hkept
  mild c hc t choice hinv _ := by
    obtain ⟨hinv', hguar⟩ := step_mild hc choice hinv
    have hkept := kept_mild hc choice t i
    exact ⟨hinv', hguar, fun _ h => h.kept hkept, fun _ _ _ h => h.kept hkept⟩
  status _ _ hkey hchange _ choice hinv _ := step_noJoin hkey hchange choice hinv

/-! ## Reading, finalizers, releasing -/

theorem step_getPeer (choice : Choice) (hinv : consistencyContract.inv l)
    (hsane : consistencyContract.admits i (.getPeer i) choice l)
    {out : Except GoError LatticePeer × Ledger} (hout : observe (.getPeer i) choice l = out) :
    consistencyContract.inv out.2 ∧ consistencyContract.guar i l out.2 ∧
      ∀ p, out.1 = .ok p → p.metadata.key = i ∧ InTouch i p out.2 := by
  have hlag : choice.lag = 0 := hsane
  have hstore : out.2.world.store = l.world.store := by
    rw [← hout, observe_world]
    exact store_getPeer choice l.world i
  have hcopies : out.2.copies = l.note i out.1 := by rw [← hout]; rfl
  refine ⟨?_, fun j hj => ?_, fun p hp => ?_⟩
  · change Steadfast out.2.world.store
    rw [hstore]
    exact hinv
  · apply Kept.of_same hstore
    rw [hcopies]
    cases out.1 with
    | error err => rfl
    | ok p => exact Function.update_of_ne hj _ _
  · -- with a current read, what is returned is what is stored
    have hget : l.world.store.peers.get i = some p := by
      rw [← hout] at hp
      change (exec (.getPeer i) choice l.world).1 = .ok p at hp
      rw [exec, hlag] at hp
      cases hfault : choice.fault with
      | some f => simp [Choice.read, hfault] at hp
      | none =>
        cases hfound : (l.world.seen 0).peers.get i with
        | none => simp [Choice.read, hfault, hfound, found] at hp
        | some q =>
          simp only [Choice.read, hfault, hfound, found, Except.ok.injEq] at hp
          rw [← hp]
          exact hfound
    refine ⟨key_of_get hget, ⟨?_, fun q hq => .inr ?_, fun _ => ⟨p, ?_, .refl p⟩⟩⟩
    · rw [hcopies, hp]
      exact Function.update_self _ _ _
    · rw [hstore, hget] at hq
      cases hq
      exact .refl p
    · rw [hstore]
      exact hget

theorem step_updatePeer {finalizers : List String} (hkey : node.metadata.key = i)
    (h : InTouch i node l) (choice : Choice) (hinv : consistencyContract.inv l)
    {obj : LatticePeer}
    (hobj : { node with metadata := { node.metadata with finalizers := finalizers } } = obj) :
    consistencyContract.inv (observe (.updatePeer obj) choice l).2 ∧
      consistencyContract.guar i l (observe (.updatePeer obj) choice l).2 := by
  have hi : obj.metadata.key = i := hobj ▸ hkey
  subst hi
  apply step_write (c := .updatePeer obj) trivial (by simp) hinv
  all_goals
    rcases store_updatePeer choice l.world obj with hs | ⟨current, hget, hcurrent, hs | hs⟩
    all_goals rw [hs]
  · exact fun _ _ => rfl
  · exact fun j hj => get_put_ne fun heq => hj (heq.trans hcurrent)
  · exact fun j hj => get_erase_ne hj
  · exact hinv.leased _
  · refine leasedAt_put hcurrent fun name hvisible hready hactive => ?_
    rcases h.origin current hget with hnew | hsame
    · -- a new peer under the name has no phase yet
      have hphase : current.status.phase = .ready := hready
      rw [hnew] at hphase
      cases hphase
    · subst hobj
      exact hinv.leased _ current name hget (hsame.shadow.trans hvisible) hready hactive
  · intro p name hp
    rw [get_erase_self] at hp
    cases hp

/-- Deleting an endpoint of its own while the peer is `Pending`. -/
theorem step_deleteEndpoint {entry : String} (hpending : node.status.phase = .pending)
    (h : InTouch i node l) (choice : Choice) (hinv : consistencyContract.inv l)
    (hsane : consistencyContract.admits i (.deleteEndpoint ⟨i.ns, entry⟩) choice l) :
    consistencyContract.inv (observe (.deleteEndpoint ⟨i.ns, entry⟩) choice l).2 ∧
      consistencyContract.guar i l (observe (.deleteEndpoint ⟨i.ns, entry⟩) choice l).2 := by
  let key : NamespacedName := ⟨i.ns, entry⟩
  have hpeers : (exec (.deleteEndpoint key) choice l.world).2.store.peers =
      l.world.store.peers := peers_exec (c := .deleteEndpoint key) trivial choice l.world
  have hothers : ∀ j, j ≠ i → Kept j l (observe (.deleteEndpoint key) choice l).2 := by
    intro j hj
    rcases store_deleteEndpoint choice l.world key with hs | hs
    · exact .of_same hs rfl
    · -- what is deleted names `i`, so it does not name `j`
      refine .of_store hs rfl { Kept.refl j l with lease := fun k ep _ hk hnames _ _ => ?_ }
      refine (get_erase_ne fun heq => hj ?_).trans hk
      subst heq
      have hown : Names i key ep := ⟨rfl, hsane ep hk⟩
      exact hnames.eq hown
  refine ⟨steadfast_of_kept hinv hothers ?_ ?_, hothers⟩
  · apply h.leasedAt_of_pending hpending
    exact hpeers
  · intro k ep hk
    exact hinv.named k ep (shrinks_exec (c := .deleteEndpoint key) trivial choice l.world k ep hk)

/-- A peer without a network becomes `Ready`. -/
theorem wp_becomeReady_alone (hnode : Entered i node) (hactive : node.status.activeNetwork = none)
    (h : InTouch i node l) :
    consistencyContract.wp observe i (updateStatus node (withPhase .ready))
      (fun r _ => r.1.metadata.key = i) l := by
  have hf : consistencyContract.wp observe i (withPhase .ready node.status)
      (fun status t => status = { node.status with phase := .ready } ∧ InTouch i node t) l :=
    ⟨rfl, h⟩
  apply wp_updateStatus hnode.key hf
  · intro status t t' ht hkept
    exact ⟨ht.1, ht.2.kept hkept⟩
  · intro status t choice ht hinv _
    obtain ⟨hstatus, htouch⟩ := ht
    apply step_status node { node with status := status } hnode.key choice hinv
    intro current hget
    refine leasedAt_put (by exact key_of_get hget) fun name _ _ hjoined => ?_
    -- the patch leaves the network alone, and the peer is in none
    have hcurrent : current.status.activeNetwork = none := by
      rcases htouch.origin current hget with hnew | hsame
      · rw [hnew]
      · rw [hsame.status]
        exact hactive
    simp [patchedPeerStatus, mergeStatus, hstatus, hcurrent] at hjoined

end Wireflow.Controller
