/-
# Runs that keep leases consistent

`LeaseConsistent` does not hold in general. `AllocateIP` hands out any endpoint that names the
peer, without looking at the network or at the owner. When a join fails after its endpoint has
been created and `Spec.Network` is edited before the next attempt, the peer becomes `Ready` in
the second network with an address of the first (`misplaced_after_switch`). An endpoint of an
earlier peer of the same name is handed out likewise, and is garbage collected later.

The property holds along every run in which the endpoints that `AllocateIP` finds for a peer
are its own and lie in the network it joins, all addresses it tries lie in that network, no
reconciler deletes an endpoint of another peer, networks keep the subnet they were given, and
reads are current (`lease_consistent_along`).
-/

import Wireflow.Theorems.Lifecycle.Consistency

namespace Wireflow.Controller

open Go.Net
open Semantics Contract
open Wireflow.Api Table

variable {i j : NamespacedName} {l l' : Ledger} {lib : SelectorLibrary}
variable {node : LatticePeer} {name : String} {network : LatticeNetwork}

/-! ## Joining -/

/-- The peer owns a lease of the address, in the network it is joining. -/
structure Holding (i : NamespacedName) (node : LatticePeer) (name address : String)
    (l : Ledger) : Prop where
  inTouch : InTouch i node l
  lease : ∃ ep, Secured l.world.store i name address ep ∧
    ep.metadata.controllerRef = some node.metadata.uid

theorem Holding.kept {address : String} (h : Holding i node name address l)
    (hfinal : finalizerName ∈ node.metadata.finalizers) (hkept : Kept i l l') :
    Holding i node name address l' := by
  obtain ⟨p, hp, hsame⟩ := h.inTouch.stays hfinal
  obtain ⟨ep, hsecured, howner⟩ := h.lease
  refine ⟨h.inTouch.kept hkept, ep, hsecured.kept hkept hp ?_, howner⟩
  rw [hsame.uid]
  exact howner

/-- Recording an address while its lease is held. -/
theorem wp_recordAddress_held {address : String} (hnode : Entered i node)
    (hother : node.status.activeNetwork ≠ some name) (h : Holding i node name address l) :
    consistencyContract.wp observe i (updateStatus node (joinedStatus name address))
      (fun r _ => r.1.metadata.key = i) l := by
  have hstable : consistencyContract.Stable i (Holding i node name address) :=
    fun _ _ ht hkept => ht.kept hnode.finalizer hkept
  have hnow : Call.Mild i .now := trivial
  have hjoined := wp_of_within hstable (fun c hc t choice ht hinv _ => by
      obtain ⟨hinv', hguar⟩ := step_mild hc choice hinv
      exact ⟨hinv', hguar, ht.kept hnode.finalizer (kept_mild hc choice t i)⟩)
    (within_joinedStatus hnow name address node.status) h
  apply wp_updateStatus hnode.key hjoined
  · intro status t t' ht hkept
    exact ⟨ht.1, hstable t t' ht.2 hkept⟩
  · intro status t choice ht hinv _
    obtain ⟨hmembership, hheld⟩ := ht
    simp only [membership, Prod.mk.injEq] at hmembership
    obtain ⟨-, hnetwork, haddress⟩ := hmembership
    obtain ⟨p, hp, hsame⟩ := hheld.inTouch.stays hnode.finalizer
    obtain ⟨ep, hsecured, howner⟩ := hheld.lease
    apply step_status node { node with status := status } hnode.key choice hinv
    intro current hget
    obtain rfl : p = current := Option.some.inj (hp.symm.trans hget)
    refine leasedAt_put (by exact key_of_get hget) fun joined _ _ hjoined => ?_
    -- the network is set, and so is the address unless it is there already
    have hname : joined = name := by
      have hne : node.status.activeNetwork ≠ status.activeNetwork := by
        rw [hnetwork]
        exact hother
      have hset : (mergeStatus node.status status p.status).activeNetwork = some name :=
        (if_neg hne).trans hnetwork
      exact Option.some.inj (hjoined.symm.trans hset)
    have hset : (mergeStatus node.status status p.status).allocatedAddress = some address := by
      by_cases hthere : node.status.allocatedAddress = status.allocatedAddress
      · refine (if_pos hthere).trans ?_
        rw [hsame.status, hthere]
        exact haddress
      · exact (if_neg hthere).trans haddress
    exact ⟨address, ep, hset, hname ▸ hsecured, howner.trans (congrArg some hsame.uid.symm)⟩

/-- Creating an endpoint takes nothing from anybody. -/
theorem kept_createEndpoint (ep : LatticeEndpoint) (choice : Choice) (l : Ledger)
    (j : NamespacedName) : Kept j l (observe (.createEndpoint ep) choice l).2 := by
  rcases store_createEndpoint choice l.world ep with hs | ⟨hnone, hs⟩
  · exact .of_same hs rfl
  · refine .of_store hs rfl { Kept.refl j l with lease := fun k e _ hk _ _ _ => ?_ }
    exact get_put_of_free hnone hk

theorem step_createEndpoint_named (ep : LatticeEndpoint)
    (hname : releaseName ep.address = some ep.metadata.name) (choice : Choice)
    (hinv : consistencyContract.inv l) :
    consistencyContract.inv (observe (.createEndpoint ep) choice l).2 ∧
      consistencyContract.guar i l (observe (.createEndpoint ep) choice l).2 := by
  have hkept := kept_createEndpoint ep choice l
  refine ⟨⟨fun q => (hinv.leased q).kept (hkept q), fun k e hk => ?_⟩, fun j _ => hkept j⟩
  rw [observe_world] at hk
  rcases store_createEndpoint choice l.world ep with hs | ⟨-, hs⟩
  · rw [hs] at hk
    exact hinv.named k e hk
  · rw [hs] at hk
    rcases get_put_cases hk with ⟨rfl, rfl⟩ | ⟨-, hold⟩
    · exact hname
    · exact hinv.named k e hold

/-- What `AllocateIP` establishes. -/
def Allocated (i : NamespacedName) (node : LatticePeer) (name : String)
    (r : Except GoError String) (l : Ledger) : Prop :=
  ∀ address, r = .ok address → Holding i node name address l

variable {net : IPNet}

theorem wp_claimFrom_inside {used : List String} (hkey : node.metadata.key = i)
    (hnet : parseCIDR network.activeCIDR = .ok net) (n : ℕ) (a : IPv4)
    (hinside : ∀ m < n, net.contains (.v4 (a + BitVec.ofNat 32 m)) = true)
    (h : Joining i node name network l) :
    consistencyContract.wp observe i (claimFrom network node used n a)
      (Allocated i node name) l := by
  subst hkey
  -- on the number of addresses that are still tried, all of them inside the subnet
  induction n generalizing a l with
  | zero => rintro _ ⟨⟩
  | succ n ih =>
    have hnext : ∀ m < n, net.contains (.v4 (a + 1 + BitVec.ofNat 32 m)) = true := by
      intro m hm
      have hstep : a + 1 + BitVec.ofNat 32 m = a + BitVec.ofNat 32 (m + 1) := by
        rw [BitVec.add_assoc, Nat.add_comm m 1, BitVec.ofNat_add]
        rfl
      rw [hstep]
      exact hinside (m + 1) (by omega)
    unfold claimFrom
    split_ifs with hused
    · exact ih (a + 1) hnext h
    · apply wp_call _ ((manners _).stableJoin node name network) h
      intro t ht hinv choice _
      have hmild : Call.Mild node.metadata.key .setControllerReference := trivial
      obtain ⟨hinv', hguar⟩ := step_mild hmild choice hinv
      refine ⟨hinv', hguar, ?_⟩
      cases (observe .setControllerReference choice t).1 with
      | error err => rintro _ ⟨⟩
      | ok _ =>
        apply wp_call _ ((manners _).stableJoin node name network) ht
        intro u hu hinv choice _
        obtain ⟨hinv', hguar⟩ := step_createEndpoint_named
          (newEndpoint node a) (releaseName_ipv4String a) choice hinv
        have hkept := kept_createEndpoint (newEndpoint node a) choice u node.metadata.key
        refine ⟨hinv', hguar, ?_⟩
        cases hr : (observe (.createEndpoint (newEndpoint node a)) choice u).1 with
        | error err =>
          dsimp only [Program.bind]
          split_ifs
          · -- somebody else was faster
            exact ih (a + 1) hnext (hu.kept hkept)
          · rintro _ ⟨⟩
        | ok _ =>
          intro address hok
          cases hok
          obtain ⟨-, n', hn', hsame⟩ := (hu.kept hkept).subnet
          refine ⟨(hu.kept hkept).inTouch, newEndpoint node a, ⟨⟨n', net, .v4 a, hn', ?_, ?_, ?_,
            ?_⟩, rfl⟩, rfl⟩
          · rw [hsame]
            exact hnet
          · exact parseIP_ipv4String a
          · simpa using hinside 0 (Nat.succ_pos n)
          · exact (createEndpoint_ok choice u.world hr).2

/-- In a roomy subnet all addresses tried are inside. -/
theorem Roomy.contains (h : Roomy net) {m : ℕ}
    (hm : m < (endAddr net).toNat + 1 - (startAddr net).toNat) :
    net.contains (.v4 (startAddr net + BitVec.ofNat 32 m)) = true := by
  obtain ⟨hfirst, hend⟩ := h (by omega)
  have hsum : (startAddr net + BitVec.ofNat 32 m).toNat = (startAddr net).toNat + m := by
    rw [BitVec.toNat_add, BitVec.toNat_ofNat]
    omega
  exact IPNet.contains_between hfirst hend (by omega) (by omega)

/-- An endpoint that fits is a lease of the peer. -/
theorem Fits.holding {ep : LatticeEndpoint} (h : Fits node net ep)
    (hjoining : Joining i node name network l) (hinv : Steadfast l.world.store)
    (hnet : parseCIDR network.activeCIDR = .ok net)
    (hmem : ep ∈ l.world.store.endpoints.list i.ns Go.Order.inPlace) (hpeer : ep.peerRef = i.name) :
    Holding i node name ep.address l := by
  obtain ⟨howner, hcontains⟩ := h
  obtain ⟨hns, hget⟩ := mem_list.mp hmem
  obtain ⟨-, n', hn', hsame⟩ := hjoining.subnet
  cases hip : parseIP ep.address with
  | none => simp [hip] at hcontains
  | some ip =>
    have hinside : net.contains ip = true := by simpa [hip] using hcontains
    refine ⟨hjoining.inTouch, ep, ⟨⟨n', net, ip, hn', hsame ▸ hnet, hip, hinside, ?_⟩, hpeer⟩,
      howner⟩
    -- the endpoint is found under the name of its address
    have hname : releaseName ep.address = some ep.metadata.name := hinv.named _ ep hget
    have hne : ep.address ≠ "" := by
      intro hempty
      rw [hempty] at hip
      cases hip
    rw [releaseName, if_neg hne, hip] at hname
    have hkey : (HasMeta.metadata ep).key = ⟨i.ns, leaseName ip⟩ := by
      rw [Option.some.inj hname, ← hns]
      rfl
    rw [← hkey]
    exact hget

theorem wp_allocateIP_inside (hnode : Entered i node) (hspec : node.spec.network = some name)
    (h : Joining i node name network l) :
    consistencyContract.wp observe i (allocateIP network node) (Allocated i node name) l := by
  have hns : node.metadata.ns = i.ns := by rw [← hnode.key]; rfl
  have hname : node.metadata.name = i.name := by rw [← hnode.key]; rfl
  unfold allocateIP
  cases hnet : parseCIDR network.activeCIDR with
  | error text => exact nofun
  | ok net =>
    rw [hns, hname]
    apply wp_call _ ((manners i).stableJoin node name network) h
    intro t ht hinv choice hsane
    have hmild : Call.Mild i (.listEndpoints i.ns) := trivial
    obtain ⟨hinv', hguar⟩ := step_mild hmild choice hinv
    refine ⟨hinv', hguar, ?_⟩
    -- the list is current, and what it holds fits
    obtain ⟨hlag, hfits⟩ := hsane
    obtain ⟨-, n', hn', hsame⟩ := ht.subnet
    have hallocation := hfits node ht.inTouch.copy
    rw [AllocationFits, hspec, Option.bind_some, hn'] at hallocation
    simp only [hsame, hnet] at hallocation
    obtain ⟨hroomy, hown⟩ := hallocation
    cases hr : (observe (.listEndpoints i.ns) choice t).1 with
    | error err => exact nofun
    | ok existing =>
      dsimp only [Program.bind]
      cases hfind : existing.find? fun ep => ep.peerRef == i.name with
      | none =>
        exact wp_claimFrom_inside hnode.key hnet _ _ (fun m hm => hroomy.contains hm) ht
      | some ep =>
        intro address hok
        cases hok
        have hpeer : ep.peerRef = i.name := by simpa using List.find?_some hfind
        have hmem : ep ∈ t.world.store.endpoints.list i.ns Go.Order.inPlace := by
          obtain ⟨-, hlist⟩ := Choice.read_eq_ok hr
          rw [hlag] at hlist
          cases hlist
          exact mem_list.mpr (mem_list.mp (List.mem_of_find?_eq_some hfind))
        exact (hown ep hmem hpeer).holding ht hinv hnet hmem hpeer

/-- Reconcilers keep to the contract. -/
theorem consistencyDiscipline (lib : SelectorLibrary) (i : NamespacedName) :
    Discipline consistencyContract observe lib i (InTouch i) (Joining i) (Holding i) where
  toManners := manners i
  read _ choice hinv hsane := step_getPeer choice hinv hsane rfl
  update _ _ _ hkey h := by
    apply wp_call _ ((manners i).stable _) h
    intro t ht hinv choice _
    obtain ⟨hinv', hguar⟩ := step_updatePeer hkey ht choice hinv rfl
    exact ⟨hinv', hguar, trivial⟩
  network node name network t choice _ h _ hr hcidr := by
    have hmild : Call.Mild i (.getNetwork ⟨i.ns, name⟩) := trivial
    refine ⟨h.kept (kept_mild hmild choice t i), hcidr, network, ?_, rfl⟩
    obtain ⟨-, hfound⟩ := Choice.read_eq_ok hr
    change t.world.store.networks.get ⟨i.ns, name⟩ = some network
    cases hget : t.world.store.networks.get ⟨i.ns, name⟩ with
    | none => simp [hget, found] at hfound
    | some n => simpa [hget, found] using hfound
  allocate _ _ _ _ hnode hspec h := wp_allocateIP_inside hnode hspec h
  record _ _ _ _ hnode hother h := wp_recordAddress_held hnode hother h
  release _ _ _ _ choice hnode h _ _ _ hinv hsane :=
    step_deleteEndpoint hnode.pending h choice hinv hsane
  ready _ _ hnode h hactive := wp_becomeReady_alone hnode hactive h

/-! ## What happens besides -/

/-- A peer may be created where there is none. -/
theorem kept_createPeer {obj : LatticePeer}
    (hnone : l.world.store.peers.get obj.metadata.key = none) (j : NamespacedName) :
    Kept j l { l with
      world := l.world.commit { l.world.store with
        peers := l.world.store.peers.put (createdPeer obj) } } := by
  refine kept_peers (i := (createdPeer obj).metadata.key) (fun q hq => get_put_ne hq)
    (fun p hp _ => ?_) (fun p hp => .inl ?_) j
  · cases hnone.symm.trans hp
  · have hput := get_put_self l.world.store.peers (createdPeer obj)
    rw [← Option.some.inj (hput.symm.trans hp)]
    rfl

variable {key : NamespacedName}

/-- A peer without finalizers may be removed. -/
theorem kept_removePeer {p : LatticePeer} (hp : l.world.store.peers.get key = some p)
    (hfree : p.metadata.finalizers = []) (j : NamespacedName) :
    Kept j l { l with
      world := l.world.commit { l.world.store with peers := l.world.store.peers.erase key } } := by
  refine kept_peers (fun q hq => get_erase_ne hq) (fun q hq hfinal => ?_) (fun q hq => ?_) j
  · rw [hp] at hq
    cases hq
    simp [hfree] at hfinal
  · simp at hq

/-- A network without a subnet may be given one. -/
theorem kept_setActiveCIDR {n : LatticeNetwork} (cidr : String)
    (hn : l.world.store.networks.get key = some n) (hfresh : n.activeCIDR = "")
    (j : NamespacedName) :
    Kept j l { l with world := l.world.commit { l.world.store with
      networks := l.world.store.networks.put { n with activeCIDR := cidr } } } := by
  refine { Kept.refl j l with network := fun other n' hn' hne => ⟨n', ?_, rfl⟩ }
  refine (get_put_ne fun heq => ?_).trans hn'
  -- the network that is changed had no subnet
  have hkey : (HasMeta.metadata n).key = key := key_of_get hn
  have hother : other = key := heq.trans hkey
  rw [hother, hn] at hn'
  cases hn'
  exact hne hfresh

/-- An endpoint whose owner is gone is nobody's lease. -/
theorem kept_collect {ep : LatticeEndpoint} (hep : l.world.store.endpoints.get key = some ep)
    (hgone : ownerGone l.world.store ep = true) (j : NamespacedName) :
    Kept j l { l with
      world := l.world.commit { l.world.store with
        endpoints := l.world.store.endpoints.erase key } } := by
  refine { Kept.refl j l with lease := fun k ep' p hk _ hp howner => ?_ }
  refine (get_erase_ne fun heq => ?_).trans hk
  rw [heq, hep] at hk
  cases hk
  rw [ownerGone, howner] at hgone
  have hmem : (j, p) ∈ l.world.store.peers.objects.pairs := Go.GoMap.mem_pairs.mpr hp
  simpa using List.all_eq_true.mp hgone (j, p) hmem

theorem kept_happen {e : Happening} (horderly : Orderly l.world.store e) (j : NamespacedName) :
    Kept j l { l with world := happen e l.world } := by
  cases e with
  | disturbance d =>
    cases d with
    | setSpecNetwork key network =>
      rw [happen, disturb]
      split
      · rename_i p hp
        have hversion : SamePeer p (editedPeer network p) := ⟨rfl, rfl, rfl, rfl⟩
        exact kept_put (editedPeer network p) hp (key_of_get hp) hversion j
      · exact .of_same rfl rfl
    | setActiveCIDR key cidr =>
      rw [happen, disturb]
      split
      · rename_i n hn
        exact kept_setActiveCIDR cidr hn (horderly n hn) j
      · exact .of_same rfl rfl
    | catchUp n => exact .of_same rfl rfl
  | createPeer obj =>
    rw [happen]
    split
    · exact .of_same rfl rfl
    · rename_i hnone
      exact kept_createPeer hnone j
  | deletePeer key time =>
    rw [happen]
    split
    · exact .of_same rfl rfl
    · rename_i p hp
      split_ifs with hfree
      · exact kept_removePeer hp hfree j
      · exact .of_same rfl rfl
      · have hversion : SamePeer p (markedPeer time p) := ⟨rfl, rfl, rfl, rfl⟩
        exact kept_put (markedPeer time p) hp (key_of_get hp) hversion j
  | collect key =>
    rw [happen]
    split
    · exact .of_same rfl rfl
    · rename_i ep hep
      split_ifs with hgone
      · exact kept_collect hep hgone j
      · exact .of_same rfl rfl

theorem consistency_respects (lib : SelectorLibrary) :
    consistencyContract.Respects (lifecycle lib) where
  program i _ _ _ := wp_bind.mpr
    (wp_mono (fun _ _ _ => trivial) (consistencyDiscipline lib i).wp_reconcile)
  stable _ _ _ _ _ := trivial
  compat i j l l' hij hguar := hguar j hij.symm
  env e l hinv horderly := by
    have hkept := kept_happen horderly
    refine ⟨⟨fun q => (hinv.leased q).kept (hkept q), fun k ep hk => ?_⟩, hkept⟩
    exact hinv.named k ep (shrinks_happen e l.world k ep hk)

/-! ## The theorem -/

/-- The run meets the conditions at every call and at every happening. -/
def Considerate (lib : SelectorLibrary) (w : World)
    (schedule : List (Action NamespacedName Choice Happening)) : Prop :=
  consistencyContract.Along (lifecycle lib) (Workers.idle { world := w }) schedule

instance (lib : SelectorLibrary) (w : World)
    (schedule : List (Action NamespacedName Choice Happening)) :
    Decidable (Considerate lib w schedule) :=
  inferInstanceAs (Decidable (consistencyContract.Along _ _ schedule))

/-- Nobody is in a network and no address is taken. -/
structure Unjoined (s : Store) : Prop where
  noLease : ∀ k, s.endpoints.get k = none
  noNetwork : ∀ q p, s.peers.get q = some p → p.status.activeNetwork = none

theorem Unjoined.steadfast {s : Store} (h : Unjoined s) : Steadfast s := by
  refine ⟨fun q p name hp _ _ hactive => ?_, fun k ep hk => ?_⟩
  · simp [h.noNetwork q p hp] at hactive
  · simp [h.noLease k] at hk

/-- **Lease consistency**, in every state that such a run reaches. -/
theorem lease_consistent_along (lib : SelectorLibrary) (w : World) (hstart : Unjoined w.store)
    (schedule : List (Action NamespacedName Choice Happening))
    (hconsiderate : Considerate lib w schedule) :
    LeaseConsistent (ledgerAfter lib w schedule).world.store := by
  have hsound : consistencyContract.Sound (lifecycle lib)
      ((lifecycle lib).run (Workers.idle { world := w }) schedule) :=
    (sound_idle hstart.steadfast fun _ => trivial).run (consistency_respects lib)
      hconsiderate
  intro q p name hp hvisible hready hactive
  obtain ⟨address, ep, haddress, hsecured, -⟩ :=
    hsound.inv.leased q p name hp hvisible hready hactive
  exact ⟨address, ep, haddress, hsecured⟩

/-! ## A peer in the wrong subnet

The join of the peer `a` of `Retry` has failed after its endpoint was created. The peer is
moved to the network `m`, and reconciled until it is `Ready`. -/

namespace Retry

theorem start_unjoined : Unjoined start.store := by
  refine ⟨fun k => rfl, fun q p hp => ?_⟩
  rcases get_put_cases hp with ⟨-, rfl⟩ | ⟨-, hnone⟩
  · rfl
  · cases hnone

/-- The switch of networks, and the reconciles after it. -/
def switched : List (Action NamespacedName Choice Happening) :=
  failedJoin ++ [.disturb (.disturbance (.setSpecNetwork a (some "m")))] ++
    [.start a] ++ calls 5 ++ [.start a] ++ calls 7

/-- What matters of a peer: whether it is a shadow, its phase, its network and its address. -/
def placement (w : World) : Option (Bool × LatticePeerPhase × Option String × Option String) :=
  (w.store.peers.get a).map fun p =>
    (isShadow p, p.status.phase, p.status.activeNetwork, p.status.allocatedAddress)

/-- The address lies in the subnet of a network. -/
def inSubnet (w : World) (name address : String) : Bool :=
  match w.store.networks.get ⟨"d", name⟩, parseIP address with
  | some network, some ip =>
      match parseCIDR network.activeCIDR with
      | .ok net => net.contains ip
      | .error _ => false
  | _, _ => false

/-- A consistent peer is in the subnet of its network. -/
theorem inSubnet_of_consistent {w : World} {name : String} {address : Option String}
    (h : LeaseConsistent w.store)
    (hplace : placement w = some (false, .ready, some name, address)) :
    ∃ a, address = some a ∧ inSubnet w name a = true := by
  obtain ⟨p, hp, hfields⟩ := Option.map_eq_some_iff.mp hplace
  simp only [Prod.mk.injEq] at hfields
  obtain ⟨hvisible, hready, hactive, rfl⟩ := hfields
  obtain ⟨address, ep, haddress, ⟨network, net, ip, hnetwork, hnet, hip, hinside, -⟩, -⟩ :=
    h a p name hp hvisible hready hactive
  refine ⟨address, haddress, ?_⟩
  have hnetwork' : w.store.networks.get ⟨"d", name⟩ = some network := hnetwork
  simp only [inSubnet, hnetwork', hip, hnet]
  exact hinside

end Retry

open Retry in
/-- The endpoint of the first attempt is used for the second network. -/
theorem misplaced_after_switch :
    Unjoined start.store ∧
      placement (ledgerAfter .matchLabelsOnly start switched).world =
        some (false, .ready, some "m", some "10.0.0.2") ∧
      ¬ LeaseConsistent (ledgerAfter .matchLabelsOnly start switched).world.store := by
  have hplace : placement (ledgerAfter .matchLabelsOnly start switched).world =
      some (false, .ready, some "m", some "10.0.0.2") := by
    decide +kernel
  refine ⟨start_unjoined, hplace, fun h => ?_⟩
  obtain ⟨address, haddress, hinside⟩ := inSubnet_of_consistent h hplace
  cases haddress
  exact absurd hinside (by decide +kernel)

open Retry in
/-- The join succeeds and the peer is in the subnet of its network. -/
theorem lease_consistent_along_join :
    placement (ledgerAfter .matchLabelsOnly start ([.start a] ++ calls 9)).world =
        some (false, .ready, some "n", some "10.0.0.2") ∧
      inSubnet (ledgerAfter .matchLabelsOnly start ([.start a] ++ calls 9)).world "n"
        "10.0.0.2" = true := by
  have hplace : placement (ledgerAfter .matchLabelsOnly start ([.start a] ++ calls 9)).world =
      some (false, .ready, some "n", some "10.0.0.2") := by
    decide +kernel
  have hconsistent := lease_consistent_along .matchLabelsOnly start start_unjoined
    ([.start a] ++ calls 9) (by decide +kernel)
  obtain ⟨address, haddress, hinside⟩ := inSubnet_of_consistent hconsistent hplace
  cases haddress
  exact ⟨hplace, hinside⟩

end Wireflow.Controller
