/-
# Addresses stay unique, and releases stay at home

Two properties of all reconcilers running together: no two peers that are not
shadows ever have the same address in their status, and a reconciler deletes no
endpoint but its own peer's.

Neither holds of every run. `leaveNetwork` deletes the lease before it clears the
address in the status, and `ReleaseIP` deletes by name without looking at the owner.
In between, another peer can be given the same address
(`shared_address_after_release`), and when the first peer's status patch fails, its
next reconcile deletes the other peer's lease (`release_of_foreign_lease`).

Both hold of every run in which a lease is created only while no other peer has its
address on record. Of a reconcile, only three places need an argument: the deletion,
justified by the copy in hand; the creation, admitted by the condition; and the
status patch, justified by the lease just obtained.
-/

import Wireflow.Theorems.Leases.Invariant
import Wireflow.Theorems.ReconcileShape

namespace Wireflow.Controller

open Semantics Program Contract
open Wireflow.Api Table

variable {shadow : NamespacedName → Bool} {i : NamespacedName} {lib : SelectorLibrary} {s : World}

/-! ## Harmless programs, with or without a lease in hand -/

/-- What every handler does apart from leases is harmless. -/
theorem tame_harmless : Tame i NoJoin (Harmless shadow i) where
  reads {c} hc := by
    cases c <;> first | exact hc.elim | trivial
  config _ := trivial
  labels _ hlabels := hlabels.shadow
  lenient := lenient_noJoin
  status hkey hchange := by
    refine ⟨hkey, ?_⟩
    rcases hchange with ⟨-, haddress, -⟩ | ⟨-, -, hnone⟩
    · exact .inl haddress.symm
    · exact .inr hnone

/-- Nobody takes a lease away from its owner. -/
theorem stable_ownsLease (address : String) :
    (leaseContract shadow).Stable i fun w => OwnsLease w i address := by
  rintro w w' ⟨k, ep, hget, hns, hpeer, hname⟩ hrely
  exact ⟨k, ep, hrely.leases k ep hget hns hpeer, hns, hpeer, hname⟩

theorem wp_harmless {α : Type} {p : Prog α} {Q : α → Prop}
    (hp : p.Within (Harmless shadow i) Q) :
    (leaseContract shadow).wp exec i p (fun a _ => Q a) s := by
  have hstable : (leaseContract shadow).Stable i fun _ => True := fun _ _ _ _ => trivial
  refine wp_mono (fun a t h => h.1) (wp_of_within hstable ?_ hp trivial)
  intro c hc t choice _ hinv hadm
  have hgentle := gentle_of_harmless hc hinv choice hadm
  exact ⟨hgentle.inv, hgentle.leavesOthers, trivial⟩

theorem wp_harmless_owning {α : Type} {p : Prog α} {Q : α → Prop} {address : String}
    (hp : p.Within (Harmless shadow i) Q) (hown : OwnsLease s i address) :
    (leaseContract shadow).wp exec i p (fun a t => Q a ∧ OwnsLease t i address) s := by
  refine wp_of_within (stable_ownsLease address) ?_ hp hown
  rintro c hc t choice ⟨k, ep, hget, hrest⟩ hinv hadm
  have hgentle := gentle_of_harmless hc hinv choice hadm
  exact ⟨hgentle.inv, hgentle.leavesOthers, k, ep, hgentle.leases k ep hget, hrest⟩

/-! ## Obtaining a lease -/

/-- What `AllocateIP` establishes: a returned address is leased to the peer. -/
def Leased (i : NamespacedName) (r : Except GoError String) (w : World) : Prop :=
  ∀ address, r = .ok address → OwnsLease w i address

variable {peer : LatticePeer}

theorem wp_claimFrom {network : LatticeNetwork} {used : List String} (hkey : peer.metadata.key = i)
    (n : ℕ) (a : Go.Net.IPv4) :
    (leaseContract shadow).wp exec i (claimFrom network peer used n a) (Leased i) s := by
  subst hkey
  -- on the number of addresses that are still tried
  induction n generalizing a s with
  | zero => rintro address ⟨⟩
  | succ n ih =>
    unfold claimFrom
    split_ifs with hused
    · exact ih (a + 1)
    · have href : (Client.setControllerReference).Within
          (Harmless shadow peer.metadata.key) fun _ => True := within_issue trivial
      refine wp_except (wp_harmless href) (by rintro _ _ _ _ ⟨⟩) fun _ _ _ => ?_
      refine wp_call (fun _ => True) (fun _ _ _ _ => trivial) trivial ?_
      intro t _ hinv choice hadm
      have hharmless : Harmless shadow peer.metadata.key (.createEndpoint (newEndpoint peer a)) :=
        ⟨rfl, rfl, releaseName_ipv4String a⟩
      have hgentle := gentle_of_harmless hharmless hinv choice hadm
      refine ⟨hgentle.inv, hgentle.leavesOthers, ?_⟩
      cases hr : (exec (.createEndpoint (newEndpoint peer a)) choice t).1 with
      | ok _ =>
        rintro address ⟨⟩
        exact ⟨(newEndpoint peer a).metadata.key, newEndpoint peer a,
          (createEndpoint_ok choice t hr).2, rfl, rfl, releaseName_ipv4String a⟩
      | error err =>
        dsimp only [Program.bind]
        split_ifs
        · -- somebody else was faster
          exact ih (a + 1)
        · rintro address ⟨⟩

theorem wp_allocateIP {network : LatticeNetwork} (hkey : peer.metadata.key = i) :
    (leaseContract shadow).wp exec i (allocateIP network peer) (Leased i) s := by
  unfold allocateIP
  cases Go.Net.parseCIDR network.activeCIDR with
  | error text => rintro address ⟨⟩
  | ok net =>
    refine wp_call (fun _ => True) (fun _ _ _ _ => trivial) trivial ?_
    intro t _ hinv choice hadm
    have hgentle : Gentle shadow i t (exec (.listEndpoints peer.metadata.ns) choice t).2 :=
      gentle_of_harmless (c := .listEndpoints peer.metadata.ns) trivial hinv choice hadm
    refine ⟨hgentle.inv, hgentle.leavesOthers, ?_⟩
    cases hr : (exec (.listEndpoints peer.metadata.ns) choice t).1 with
    | error err => rintro address ⟨⟩
    | ok existing =>
      dsimp only [Program.bind]
      cases hfind : existing.find? fun ep => ep.peerRef == peer.metadata.name with
      | none => exact wp_claimFrom hkey _ _
      | some ep =>
        -- the peer has a lease already and keeps it
        rintro address ⟨⟩
        subst hkey
        have hpeer : ep.peerRef = peer.metadata.name := by simpa using List.find?_some hfind
        have hmem : ep ∈ t.store.endpoints.list peer.metadata.ns choice.listOrder := by
          obtain ⟨-, hlist⟩ := Choice.read_eq_ok hr
          cases hlist
          exact List.mem_of_find?_eq_some hfind
        obtain ⟨hns, hget⟩ := mem_list.mp hmem
        exact ⟨ep.metadata.key, ep, hget, hns, hpeer, hinv.named _ ep hget⟩

/-! ## Recording it -/

/-- The status patch that records an address is sound while the lease is held. -/
theorem wp_recordAddress {networkName address : String} (hkey : peer.metadata.key = i)
    (hown : OwnsLease s i address) :
    (leaseContract shadow).wp exec i (updateStatus peer (joinedStatus networkName address))
      (fun r _ => r.1.metadata.key = i) s := by
  have hjoined : (leaseContract shadow).wp exec i _ _ s :=
    wp_harmless_owning (within_joinedStatus trivial networkName address peer.status) hown
  apply wp_updateStatus hkey hjoined
  · intro status w w' h hrely
    exact ⟨h.1, stable_ownsLease address w w' h.2 hrely⟩
  · intro status t choice h hinv _
    obtain ⟨hmembership, howned⟩ := h
    have hgentle : Gentle shadow i t
        (exec (.patchPeerStatus peer { peer with status := status }) choice t).2 := by
      refine gentle_patchPeerStatus hinv choice ?_ ?_
      · exact hkey
      intro a _ ha
      obtain rfl : address = a :=
        Option.some.inj ((congrArg (fun m => m.2.2) hmembership).symm.trans ha)
      exact howned
    exact ⟨hgentle.inv, hgentle.leavesOthers⟩

/-! ## Releasing a lease -/

/-- Deleting the lease of the address one has on record deletes one's own lease. -/
theorem deleteEndpoint_own (hinv : LeaseInv shadow s) {address name : String}
    (hrec : OnRecord shadow s i address) (hname : releaseName address = some name)
    (choice : Choice) :
    LeaseInv shadow (exec (.deleteEndpoint ⟨i.ns, name⟩) choice s).2 ∧
      LeavesOthers i s (exec (.deleteEndpoint ⟨i.ns, name⟩) choice s).2 := by
  rcases write_cases choice s (s.store.deleteEndpoint ⟨i.ns, name⟩) with
    hsame | ⟨⟨⟩, s', hok, hcommit⟩
  · rw [exec, hsame]
    exact ⟨hinv, .refl i s⟩
  · rw [exec, hcommit]
    obtain rfl := Store.deleteEndpoint_eq_ok hok
    refine ⟨hinv.commit (fun q p hget => hinv.current hget) fun k ep hget => ?_,
      ⟨fun _ _ => rfl, fun k ep hget hforeign => ?_⟩⟩
    · by_cases hk : k = ⟨i.ns, name⟩
      · subst hk
        rw [get_erase_self] at hget
        cases hget
      · rwa [get_erase_ne hk] at hget
    · -- the deleted lease, if there was one, names `i`
      have hk : k ≠ ⟨i.ns, name⟩ := by
        rintro rfl
        have howner := hinv.owner _ ep i address hget hrec rfl hname
        rcases hforeign with hns | hpeer
        · exact hns rfl
        · exact hpeer howner.symm
      exact (get_erase_ne hk).trans hget

/-! ## The whole reconcile -/

/-- Nothing but reads of a peer and status patches changes what a reconciler holds. -/
theorem held_exec_mild {c : Call} (hc : c.Mild i) (choice : Choice) (w : World) :
    (exec c choice w).2.held = w.held := by
  have hwrite : ∀ {α : Type} (outcome : Except GoError (α × Store)),
      (choice.write w outcome).2.held = w.held := by
    intro α outcome
    rcases write_cases choice w outcome with hsame | ⟨a, s, -, hcommit⟩
    · rw [hsame]
    · rw [hcommit]
      rfl
  cases c with
  | getPeer | updatePeer | patchPeerStatus | createEndpoint | deleteEndpoint => exact hc.elim
  | patchPeer base modified | applyConfigMap cm => exact hwrite _
  | _ => rfl

theorem harmless_of_mild {c : Call} (hc : c.Mild i) : Harmless shadow i c := by
  cases c with
  | patchPeer base modified => exact hc.2
  | getPeer | updatePeer | patchPeerStatus | createEndpoint | deleteEndpoint => exact hc.elim
  | _ => trivial

/-- What a reconciler knows of its copy: the address in it is on record, and whether the peer
is a shadow. -/
structure Holds (shadow : NamespacedName → Bool) (i : NamespacedName) (node : LatticePeer)
    (w : World) : Prop where
  held : w.heldBy i = node.status.allocatedAddress
  label : isShadow node = shadow i

variable {w : World}

theorem Holds.visible {node : LatticePeer} (h : Holds shadow i node w) (hnode : Entered i node) :
    shadow i = false := by
  have hvisible := hnode.visible
  rw [← h.label]
  simpa [isShadow] using hvisible

/-- A peer without a network becomes `Ready` and keeps what address it has. -/
theorem wp_becomeReady {node : LatticePeer} (hkey : node.metadata.key = i) :
    (leaseContract shadow).wp exec i (updateStatus node (withPhase .ready))
      (fun r _ => r.1.metadata.key = i) s := by
  have hphase : (withPhase .ready node.status).Within (Harmless shadow i)
      fun st => st.allocatedAddress = node.status.allocatedAddress := within_ret rfl
  have hready : (updateStatus node (withPhase .ready)).Within (Harmless shadow i)
      fun r => r.1.metadata.key = i := by
    refine (within_updateStatus_of hphase ?_).mono (fun _ => id) fun _ h => h.trans hkey
    intro status hstatus
    exact ⟨hkey, .inl hstatus.symm⟩
  exact wp_harmless hready

/-- Reconcilers keep to the contract about leases. -/
theorem leaseDiscipline (lib : SelectorLibrary) (shadow : NamespacedName → Bool)
    (i : NamespacedName) :
    Discipline (leaseContract shadow) exec lib i (Holds shadow i) (fun _ _ _ _ => True)
      fun _ _ address w => OwnsLease w i address where
  stable _ _ _ h hrely := ⟨hrely.held.trans h.held, h.label⟩
  stableJoin _ _ _ _ _ _ _ := trivial
  mild c hc t choice hinv hadm := by
    have hgentle := gentle_of_harmless (harmless_of_mild hc) hinv choice hadm
    refine ⟨hgentle.inv, hgentle.leavesOthers, fun node h => ⟨?_, h.label⟩, fun _ _ _ _ => trivial⟩
    rw [World.heldBy, held_exec_mild hc]
    exact h.held
  status base status hkey hchange t choice hinv hadm := by
    have hgentle := gentle_of_harmless (tame_harmless.status hkey hchange) hinv choice hadm
    exact ⟨hgentle.inv, hgentle.leavesOthers⟩
  read t choice hinv _ := by
    have hgentle : Gentle shadow i t (exec (.getPeer i) choice t).2 := gentle_getPeer hinv choice
    refine ⟨hgentle.inv, hgentle.leavesOthers, fun p hp => ?_⟩
    obtain ⟨⟨s', hs', hget⟩, hheld⟩ := getPeer_ok hp
    refine ⟨key_of_get hget, ?_, hinv.label s' hs' i p hget⟩
    -- the copy just read is the one in hand
    rw [hheld]
    exact World.heldBy_hold_self
  update _ _ _ hkey h := wp_harmless (within_issue (by exact ⟨hkey, h.label⟩))
  network _ _ _ _ _ _ _ _ _ _ := trivial
  allocate _ _ _ _ hnode _ _ := wp_allocateIP hnode.key
  record _ _ _ _ hnode _ hown := wp_recordAddress hnode.key hown
  release _ _ _ _ choice hnode h haddress hempty hparse hinv _ := deleteEndpoint_own hinv
    (onRecord_iff.mpr ⟨h.visible hnode, .inr (h.held.trans haddress)⟩)
    (by rw [releaseName, if_neg hempty, hparse, Option.map_some]) choice
  ready _ _ hnode _ _ := wp_becomeReady hnode.key

theorem inv_disturb (e : Disturbance) (hinv : LeaseInv shadow s) :
    LeaseInv shadow (disturb e s) := by
  rcases disturb_cases e s with h | ⟨key, network, p, hget, h⟩ | ⟨networks, h⟩ | ⟨n, h⟩
  · rw [h]
    exact hinv
  · rw [h]
    obtain ⟨hshadow, haddr⟩ := hinv.current hget
    have hkey : (editedPeer network p).metadata.key = key := key_of_get hget
    exact hinv.commit_peer hkey hshadow fun address hi hp => .inl (haddr address hi hp)
  · rw [h]
    exact hinv.commit (fun q p hget => hinv.current hget) fun _ _ hget => hget
  · -- the cache catches up: fewer versions can still be read
    rw [h]
    have hold : ∀ s' ∈ s.store :: s.past.take n, s' ∈ s.store :: s.past := fun s' hs' =>
      List.mem_cons.mpr ((List.mem_cons.mp hs').imp_right List.mem_of_mem_take)
    refine hinv.of_subset (fun q address hrec => ?_) (fun _ _ hget => hget)
      fun s' hs' => hinv.label s' (hold s' hs')
    rw [onRecord_iff] at hrec ⊢
    obtain ⟨hq, ⟨s', hs', hp⟩ | hheld⟩ := hrec
    · exact ⟨hq, .inl ⟨s', hold s' hs', hp⟩⟩
    · exact ⟨hq, .inr hheld⟩

theorem undisturbed_disturb (e : Disturbance) (j : NamespacedName) :
    Undisturbed j s (disturb e s) := by
  rcases disturb_cases e s with h | ⟨key, network, p, hget, h⟩ | ⟨networks, h⟩ | ⟨n, h⟩
  · rw [h]
    exact .refl j s
  all_goals rw [h]; exact ⟨rfl, fun _ _ hget _ _ => hget⟩

/-- Every reconciler respects the contract. -/
theorem respects (lib : SelectorLibrary) :
    (leaseContract shadow).Respects (cluster lib) where
  program i _ _ _ := wp_bind.mpr
    (wp_mono (fun _ _ _ => trivial) (leaseDiscipline lib shadow i).wp_reconcile)
  stable _ _ _ _ _ := trivial
  compat _ _ _ _ hij h := undisturbed_of_leavesOthers hij h
  env e _ hinv _ := ⟨inv_disturb e hinv, undisturbed_disturb e⟩

/-! ## The theorems -/

/-- A cluster in which nothing has been allocated yet: no leases, and no address in
the status of a peer that is not a shadow. -/
structure Fresh (w : World) : Prop where
  endpoints : ∀ k, w.store.endpoints.get k = none
  addresses : ∀ q p, w.store.peers.get q = some p → isShadow p = false →
    p.status.allocatedAddress = none
  past : w.past = []
  held : w.held = ∅

/-- Which peers are shadows, in a given world. -/
def shadowsOf (w : World) (q : NamespacedName) : Bool :=
  match w.store.peers.get q with
  | some p => isShadow p
  | none => false

theorem Fresh.inv (h : Fresh w) : LeaseInv (shadowsOf w) w := by
  have hnone : ∀ q address, ¬ OnRecord (shadowsOf w) w q address := by
    intro q address hrec
    obtain ⟨hq, ⟨s, hs, p, hget, haddr⟩ | hheld⟩ := onRecord_iff.mp hrec
    · rw [h.past, List.mem_singleton] at hs
      subst hs
      rw [shadowsOf, hget] at hq
      rw [h.addresses q p hget hq] at haddr
      cases haddr
    · rw [World.heldBy, h.held] at hheld
      simp at hheld
  refine ⟨fun k ep _ _ hget => ?_, fun p q address hp => absurd hp (hnone p address),
    fun k ep hget => ?_, fun s hs q p hget => ?_⟩
  · rw [h.endpoints] at hget
    cases hget
  · rw [h.endpoints] at hget
    cases hget
  · rw [h.past, List.mem_singleton] at hs
    subst hs
    rw [shadowsOf, hget]

/-- The run takes only steps that create a lease while no other peer has its address
on record. -/
def LeasesFree (lib : SelectorLibrary) (w : World)
    (schedule : List (Action NamespacedName Choice Disturbance)) : Prop :=
  (leaseContract (shadowsOf w)).Along (cluster lib) (Workers.idle w) schedule

instance (lib : SelectorLibrary) (w : World)
    (schedule : List (Action NamespacedName Choice Disturbance)) :
    Decidable (LeasesFree lib w schedule) :=
  inferInstanceAs (Decidable ((leaseContract (shadowsOf w)).Along _ _ schedule))

/-- The world after a schedule. -/
def worldAfter (lib : SelectorLibrary) (w : World)
    (schedule : List (Action NamespacedName Choice Disturbance)) : World :=
  ((cluster lib).run (Workers.idle w) schedule).shared

theorem sound_after (hfresh : Fresh w) {schedule : List (Action NamespacedName Choice Disturbance)}
    (hfree : LeasesFree lib w schedule) :
    (leaseContract (shadowsOf w)).Sound (cluster lib)
      ((cluster lib).run (Workers.idle w) schedule) :=
  (sound_idle hfresh.inv fun _ => trivial).run (respects lib) hfree

/-- **Addresses are unique** in every state such a run reaches. -/
theorem address_unique_along (lib : SelectorLibrary) (w : World) (hfresh : Fresh w)
    (schedule : List (Action NamespacedName Choice Disturbance))
    (hfree : LeasesFree lib w schedule) (p q : NamespacedName) (peer peer' : LatticePeer)
    (address : String) (hne : p ≠ q) (hns : p.ns = q.ns)
    (hp : (worldAfter lib w schedule).store.peers.get p = some peer)
    (hq : (worldAfter lib w schedule).store.peers.get q = some peer')
    (hshadow : isShadow peer = false) (hshadow' : isShadow peer' = false) :
    ¬ (peer.status.allocatedAddress = some address ∧
      peer'.status.allocatedAddress = some address) := by
  rintro ⟨haddr, haddr'⟩
  have hinv : LeaseInv (shadowsOf w) (worldAfter lib w schedule) := (sound_after hfresh hfree).inv
  obtain ⟨hlabel, hrec⟩ := hinv.current hp
  obtain ⟨hlabel', hrec'⟩ := hinv.current hq
  refine hne (hinv.unique p q address ?_ ?_ hns)
  · exact hrec address (hlabel ▸ hshadow) haddr
  · exact hrec' address (hlabel' ▸ hshadow') haddr'

/-- **Releases stay at home.** An endpoint that a step of the reconciler of `i`
removes, in such a run, is an endpoint of `i`. -/
theorem release_own_along (lib : SelectorLibrary) (w : World) (hfresh : Fresh w)
    (schedule : List (Action NamespacedName Choice Disturbance)) (i : NamespacedName)
    (choice : Choice) (hfree : LeasesFree lib w (schedule ++ [.advance i choice]))
    (k : NamespacedName) (ep : LatticeEndpoint)
    (hbefore : (worldAfter lib w schedule).store.endpoints.get k = some ep)
    (hafter : (worldAfter lib w (schedule ++ [.advance i choice])).store.endpoints.get k = none) :
    k.ns = i.ns ∧ ep.peerRef = i.name := by
  obtain ⟨hfirst, hlast⟩ := Contract.Along.append hfree
  have hsound := sound_after hfresh hfirst
  by_contra hforeign
  rw [not_and_or] at hforeign
  have hrun : worldAfter lib w (schedule ++ [.advance i choice]) =
      ((cluster lib).step ((cluster lib).run (Workers.idle w) schedule)
        (.advance i choice)).shared := by
    simp [worldAfter, Workers.run]
  rw [hrun] at hafter
  -- a reconciler that is idle or done does nothing; a call keeps what is not its own
  cases hstate : ((cluster lib).run (Workers.idle w) schedule).running i with
  | none =>
    simp only [Workers.step, hstate] at hafter
    exact absurd (hbefore.symm.trans hafter) (by simp)
  | some prog =>
    cases prog with
    | ret a =>
      simp only [Workers.step, hstate] at hafter
      exact absurd (hbefore.symm.trans hafter) (by simp)
    | call c resume =>
      have hguar := hsound.guar hstate (hlast.1 c resume hstate)
      rw [hguar.leases k ep hbefore hforeign] at hafter
      cases hafter

/-! ## The race

Two peers and a network with a single address. Peer `a` joins and is told to leave. It
deletes its lease, and before it clears its status, `b` joins. -/

namespace Race

def a : NamespacedName := ⟨"d", "a"⟩

def b : NamespacedName := ⟨"d", "b"⟩

/-- The lease of `10.0.0.2`. -/
def lease : NamespacedName := ⟨"d", "ip-0a000002"⟩

variable (key : NamespacedName)

/-- A peer about to join the network `n`. -/
def joining : LatticePeer :=
  { metadata :=
      { ns := key.ns
        name := key.name
        uid := key.name
        labels := Go.GoMap.ofPairs [(networkLabelKey "n", "true")]
        finalizers := [finalizerName] }
    spec := { privateKey := "k", network := some "n" }
    status := { phase := .pending } }

def start : World :=
  { store :=
      { peers := ofList [joining a, joining b]
        networks := ofList
          [{ metadata := { ns := "d", name := "n" }, activeCIDR := "10.0.0.0/30" }] } }

def timeout : Choice := { fault := some (.transient "timeout") }

/-- The next `n` calls of a peer's reconciler succeed. -/
def calls (n : ℕ) : List (Action NamespacedName Choice Disturbance) :=
  List.replicate n (.advance key {})

/-- A peer joins. The failing call is after the status patch and before its
configuration is written. -/
def join : List (Action NamespacedName Choice Disturbance) :=
  [.start key] ++ calls key 15 ++ [.advance key timeout] ++ calls key 1

/-- Peer `a` has joined, has been told to leave, and is about to delete its lease. -/
def aboutToRelease : List (Action NamespacedName Choice Disturbance) :=
  join a ++ [.disturb (.setSpecNetwork a none), .start a] ++ calls a 3 ++ [.start a] ++ calls a 1

/-- Peer `b` joins after `a` has deleted its lease. -/
def joinInBetween : List (Action NamespacedName Choice Disturbance) :=
  aboutToRelease ++ calls a 1 ++ join b

/-- The status patch of `a` fails, and its next reconcile is about to release. -/
def aboutToReleaseAgain : List (Action NamespacedName Choice Disturbance) :=
  joinInBetween ++ calls a 2 ++ [.advance a timeout] ++ calls a 1 ++ [.start a] ++ calls a 1

theorem start_fresh : Fresh start where
  endpoints _ := rfl
  addresses q p hget _ := by
    have hmem : (q, p) ∈ start.store.peers.objects.pairs := Go.GoMap.mem_pairs.mpr hget
    have hnone : ∀ e ∈ start.store.peers.objects.pairs, e.2.status.allocatedAddress = none := by
      decide +kernel
    exact hnone (q, p) hmem
  past := rfl
  held := rfl

/-- What the status of a peer says, and whether it is a shadow. -/
def addressOf (w : World) (key : NamespacedName) : Option (Bool × Option String) :=
  (w.store.peers.get key).map fun p => (isShadow p, p.status.allocatedAddress)

/-- The peer that a lease names. -/
def leaseOwner (w : World) (key : NamespacedName) : Option String :=
  (w.store.endpoints.get key).map fun ep => ep.peerRef

end Race

open Race in
/-- Two peers have the same address in their status. -/
theorem shared_address_after_release :
    Fresh start ∧
      addressOf (worldAfter .matchLabelsOnly start joinInBetween) a =
        some (false, some "10.0.0.2") ∧
      addressOf (worldAfter .matchLabelsOnly start joinInBetween) b =
        some (false, some "10.0.0.2") :=
  ⟨start_fresh, by decide +kernel, by decide +kernel⟩

open Race in
/-- Peer `a` deletes the lease of peer `b`. -/
theorem release_of_foreign_lease :
    Fresh start ∧
      leaseOwner (worldAfter .matchLabelsOnly start aboutToReleaseAgain) lease = some "b" ∧
      leaseOwner (worldAfter .matchLabelsOnly start (aboutToReleaseAgain ++ [.advance a {}]))
        lease = none :=
  ⟨start_fresh, by decide +kernel, by decide +kernel⟩

open Race in
/-- One peer joins while the other has no address on record. -/
theorem address_unique_along_join :
    addressOf (worldAfter .matchLabelsOnly start (join a)) a = some (false, some "10.0.0.2") ∧
      addressOf (worldAfter .matchLabelsOnly start (join a)) b ≠ some (false, some "10.0.0.2") := by
  have ha : addressOf (worldAfter .matchLabelsOnly start (join a)) a =
      some (false, some "10.0.0.2") := by
    decide +kernel
  refine ⟨ha, fun hb => ?_⟩
  obtain ⟨p, hp, hpair⟩ := Option.map_eq_some_iff.mp ha
  obtain ⟨q, hq, hpair'⟩ := Option.map_eq_some_iff.mp hb
  obtain ⟨hshadow, haddr⟩ := Prod.mk.inj hpair
  obtain ⟨hshadow', haddr'⟩ := Prod.mk.inj hpair'
  exact address_unique_along .matchLabelsOnly start start_fresh (join a) (by decide +kernel) a b p q
    "10.0.0.2" (by decide) rfl hp hq hshadow hshadow' ⟨haddr, haddr'⟩

open Race in
/-- The lease that `a` deletes when nobody comes in between is its own. -/
theorem release_own_along_leave :
    leaseOwner (worldAfter .matchLabelsOnly start aboutToRelease) lease = some "a" := by
  have hsome : ((worldAfter .matchLabelsOnly start
      aboutToRelease).store.endpoints.get lease).isSome := by
    decide +kernel
  obtain ⟨ep, hep⟩ := Option.isSome_iff_exists.mp hsome
  have hafter : ((worldAfter .matchLabelsOnly start
      (aboutToRelease ++ [.advance a {}])).store.endpoints.get lease).isNone := by
    decide +kernel
  have hown := release_own_along .matchLabelsOnly start start_fresh aboutToRelease a {}
    (by decide +kernel) lease ep hep (Option.isNone_iff_eq_none.mp hafter)
  rw [leaseOwner, hep]
  exact congrArg some hown.2

end Wireflow.Controller
