/-
# Updates while nothing fails

With a server that answers and reads that are current, the copy a reconcile works on is
what is stored (`InHand`). A status update then succeeds, an update of spec or labels is
stored or not needed, and publishing the configuration leaves the peer in its place. Every
lemma says in addition that no other peer is touched.
-/

import Wireflow.Theorems.HandlerCalls
import Wireflow.Theorems.Leases.Invariant

namespace Wireflow.Controller

open Semantics Program
open Wireflow.Api

/-! ## Undisturbed reconciles -/

/-- Every call is answered, and every read is current. -/
def Calm (choices : ℕ → Choice) : Prop :=
  ∀ n, (choices n).fault = none ∧ (choices n).lag = 0

theorem Calm.tail {choices : ℕ → Choice} (h : Calm choices) : Calm fun n => choices (n + 1) :=
  fun n => h (n + 1)

/-- Every peer but one is as it was before. -/
def Spared (before : Table LatticePeer) (key : NamespacedName) (s : Session) : Prop :=
  ∀ k, k ≠ key → s.world.store.peers.get k = before.get k

/-- Calls are answered, and the copy in hand is what is stored. -/
structure InHand (before : Table LatticePeer) (node : LatticePeer) (s : Session) : Prop where
  calm : Calm s.choices
  stored : s.world.store.peers.get node.metadata.key = some node
  spared : Spared before node.metadata.key s

variable {lib : SelectorLibrary} {before : Table LatticePeer} {node node' : LatticePeer}
  {s : Session}

theorem inHand_serve {c : Call} (hc : c.LeavesPeers) (h : InHand before node s) :
    InHand before node (serve c s).2 := by
  have hpeers : (serve c s).2.world.store.peers = s.world.store.peers := peers_exec hc _ _
  refine ⟨h.calm.tail, ?_, ?_⟩
  · rw [hpeers]
    exact h.stored
  · intro k hk
    rw [hpeers]
    exact h.spared k hk

/-- A program that writes no peer keeps the copy in hand. -/
theorem ensures_quiet {α : Type} {p : Prog α} {Q : α → Prop} (hp : p.Within Call.LeavesPeers Q)
    (h : InHand before node s) : p.Ensures serve (fun a t => Q a ∧ InHand before node t) s :=
  ensures_of_within hp (fun _ _ => inHand_serve) h

/-! ## Updates of the peer -/

@[simp] theorem mergeField_base {β : Type} [DecidableEq β] (base modified : β) :
    mergeField base modified base = modified := by
  unfold mergeField
  split_ifs with h
  · exact h
  · rfl

/-- A patch computed from what is stored puts the modified status in place. -/
@[simp] theorem mergeStatus_base (base modified : LatticePeerStatus) :
    mergeStatus base modified base = modified := by
  simp [mergeStatus]

@[simp] theorem mergeSpec_base (base modified : LatticePeerSpec) :
    mergeSpec base modified base = modified := by
  simp [mergeSpec]

/-- What no handler changes. -/
def identity (p : LatticePeer) : NamespacedName × Option ℕ × List String × Bool :=
  (p.metadata.key, p.metadata.deletionTimestamp, p.metadata.finalizers, isShadow p)

theorem key_of_identity {p p' : LatticePeer} (h : identity p' = identity p) :
    p'.metadata.key = p.metadata.key := congrArg Prod.fst h

/-- Storing another version of a peer spares the others. -/
theorem stored_put {p : LatticePeer} {key : NamespacedName} {t : Session}
    (h : Spared before key s) (hkey : p.metadata.key = key)
    (hpeers : t.world.store.peers = s.world.store.peers.put p) :
    t.world.store.peers.get key = some p ∧ Spared before key t := by
  subst hkey
  refine ⟨?_, fun k hk => ?_⟩
  · rw [hpeers]
    exact Table.get_put_self _ p
  · rw [hpeers]
    exact (Table.get_put_ne hk).trans (h k hk)

/-- The patch of a copy in hand is applied, and the answer is what is stored then. -/
theorem ensures_patchPeerStatus (h : InHand before node s) (status : LatticePeerStatus) :
    (Client.patchPeerStatus node { node with status := status }).Ensures serve
      (fun r t => ∃ patched : LatticePeer, r = .ok patched ∧ InHand before patched t ∧
        patched = { node with
          status := status
          metadata := { node.metadata with
            resourceVersion := node.metadata.resourceVersion + 1 } }) s := by
  let patched := patchedPeerStatus node { node with status := status } node
  have hexec : exec (.patchPeerStatus node { node with status := status }) (s.choices 0) s.world =
      (.ok patched, (s.world.commit { s.world.store with
        peers := s.world.store.peers.put patched }).hold patched.metadata.key patched) := by
    simp only [exec, Store.patchPeerStatus, Store.findPeer, h.stored, Choice.write, (h.calm 0).1]
    rfl
  obtain ⟨hstored, hspared⟩ := stored_put (p := patched) h.spared rfl
    (congrArg (fun r => r.2.store.peers) hexec :
      (serve (.patchPeerStatus node { node with status := status }) s).2.world.store.peers = _)
  refine ⟨patched, congrArg Prod.fst hexec, ⟨h.calm.tail, hstored, hspared⟩, ?_⟩
  -- base and stored object agree, so the merge yields the modified status
  simp [patched, patchedPeerStatus]

/-- The copy after an update: what is stored, and still the same peer. -/
structure Carried (before : Table LatticePeer) (node node' : LatticePeer) (t : Session) :
    Prop where
  inHand : InHand before node' t
  same : identity node' = identity node
  network : node'.spec.network = node.spec.network

theorem Carried.refl (h : InHand before node s) : Carried before node node s := ⟨h, rfl, rfl⟩

/-- **A status update succeeds** and leaves a status that the update function can return. -/
theorem ensures_updateStatus {f : LatticePeerStatus → Prog LatticePeerStatus}
    {Q : LatticePeerStatus → Prop} (hf : (f node'.status).Within Call.LeavesPeers Q)
    (h : Carried before node node' s) :
    (updateStatus node' f).Ensures serve (fun r t => ∃ peer changed, r = (peer, .ok changed) ∧
      Carried before node peer t ∧ Q peer.status) s := by
  apply (ensures_quiet hf h.inHand).bind
  intro status t ht
  obtain ⟨hQ, hhand⟩ := ht
  by_cases hsame : status = node'.status
  · rw [if_pos hsame]
    exact ⟨node', false, rfl, ⟨hhand, h.same, h.network⟩, hsame ▸ hQ⟩
  · rw [if_neg hsame]
    apply (ensures_patchPeerStatus hhand status).bind
    intro answer u hanswer
    obtain ⟨patched, rfl, hstored, rfl⟩ := hanswer
    exact ⟨_, true, rfl, ⟨hstored, h.same, h.network⟩, hQ⟩

theorem ensures_patchPeer {nodeCopy : LatticePeer} (h : InHand before node s)
    (hkey : nodeCopy.metadata.key = node.metadata.key) :
    (Client.patchPeer node nodeCopy).Ensures serve
      (fun r t => r = .ok (patchedPeer node nodeCopy node) ∧ Calm t.choices ∧
        t.world.store.peers.get node.metadata.key = some (patchedPeer node nodeCopy node) ∧
        Spared before node.metadata.key t) s := by
  have hexec : exec (.patchPeer node nodeCopy) (s.choices 0) s.world =
      (.ok (patchedPeer node nodeCopy node), s.world.commit { s.world.store with
        peers := s.world.store.peers.put (patchedPeer node nodeCopy node) }) := by
    simp only [exec, Store.patchPeer, Store.findPeer, hkey, h.stored, Choice.write, (h.calm 0).1]
    rfl
  obtain ⟨hstored, hspared⟩ := stored_put (p := patchedPeer node nodeCopy node) h.spared rfl
    (congrArg (fun r => r.2.store.peers) hexec :
      (serve (.patchPeer node nodeCopy) s).2.world.store.peers = _)
  exact ⟨congrArg Prod.fst hexec, h.calm.tail, hstored, hspared⟩

/-- The stored peer after a change of spec or labels. -/
structure Patched (before : Table LatticePeer) (node p' : LatticePeer) (t : Session) : Prop where
  stored : t.world.store.peers.get node.metadata.key = some p'
  spared : Spared before node.metadata.key t
  same : identity p' = identity node
  status : p'.status = node.status
  version : p'.metadata.resourceVersion = node.metadata.resourceVersion + 1

/-- A change that an update function may ask for. -/
structure Relabels (node nodeCopy : LatticePeer) : Prop where
  key : nodeCopy.metadata.key = node.metadata.key
  shadow : node.metadata.labels.lookup labelShadow = nodeCopy.metadata.labels.lookup labelShadow

/-- **An update of spec or labels**: the update function fails, or nothing is to be changed,
or the change is stored. -/
theorem ensures_updateSpec {f : LatticePeer → Prog (Except GoError LatticePeer)}
    {Q : Except GoError LatticePeer → Prop} (hf : (f node).Within Call.LeavesPeers Q)
    (hQ : ∀ nodeCopy, Q (.ok nodeCopy) → Relabels node nodeCopy) (h : InHand before node s) :
    (updateSpec node f).Ensures serve (fun r t =>
      (∃ err, Q (.error err) ∧ r = (node, .error err) ∧ InHand before node t) ∨
      (r = (node, .ok false) ∧ InHand before node t) ∨
      ∃ node' p', r = (node', .ok true) ∧ Patched before node p' t ∧
        ∃ nodeCopy, Q (.ok nodeCopy) ∧
          (nodeCopy.spec = node.spec →
            Carried before node node' t ∧ node'.status = node.status)) s := by
  apply (ensures_quiet hf h).bind
  intro built t ht
  obtain ⟨hbuilt, hhand⟩ := ht
  cases built with
  | error err => exact .inl ⟨err, hbuilt, rfl, hhand⟩
  | ok nodeCopy =>
    obtain ⟨hkey, hshadow⟩ := hQ nodeCopy hbuilt
    dsimp only
    split_ifs with hsame
    · exact .inr (.inl ⟨rfl, hhand⟩)
    · apply (ensures_patchPeer hhand hkey).bind
      intro answer u hanswer
      obtain ⟨rfl, hcalm, hstored, hspared⟩ := hanswer
      have hid : identity (patchedPeer node nodeCopy node) = identity node := by
        rw [identity, isShadow_patchedPeer hshadow]
        rfl
      refine .inr (.inr ⟨_, _, rfl, ⟨hstored, hspared, hid, rfl, rfl⟩, nodeCopy, hbuilt, ?_⟩)
      intro hspec
      -- the generation stays, so the copy is what is stored
      have hpatched : patchedPeer node nodeCopy node = { node with
          spec := (patchedPeer node nodeCopy node).spec
          metadata := { node.metadata with
            labels := (patchedPeer node nodeCopy node).metadata.labels
            annotations := (patchedPeer node nodeCopy node).metadata.annotations
            resourceVersion := (patchedPeer node nodeCopy node).metadata.resourceVersion } } := by
        simp [patchedPeer, nextGeneration, hspec]
      rw [← hpatched]
      refine ⟨⟨⟨hcalm, hstored, hspared⟩, hid, ?_⟩, rfl⟩
      simp [patchedPeer, hspec]

/-! ## The end of a reconcile -/

/-- Calls that keep the membership of the peer and write no other. -/
def Call.Steady (node : LatticePeer) : Call → Prop
  | .patchPeerStatus base modified => modified.metadata.key = node.metadata.key ∧
      membership modified.status = membership base.status
  | c => c.LeavesPeers

/-- What is stored has the membership of `node` and asks for the same network. -/
structure InPlace (before : Table LatticePeer) (node p' : LatticePeer) (t : Session) : Prop where
  stored : t.world.store.peers.get node.metadata.key = some p'
  spared : Spared before node.metadata.key t
  same : identity p' = identity node
  network : p'.spec.network = node.spec.network
  membership : membership p'.status = membership node.status

theorem InHand.inPlace (h : InHand before node s) : InPlace before node node s :=
  ⟨h.stored, h.spared, rfl, rfl, rfl⟩

theorem inPlace_of_peers {p : LatticePeer} {t : Session} (h : InPlace before node p s)
    (hpeers : t.world.store.peers = s.world.store.peers) : InPlace before node p t := by
  refine ⟨?_, fun k hk => ?_, h.same, h.network, h.membership⟩
  · rw [hpeers]
    exact h.stored
  · rw [hpeers]
    exact h.spared k hk

theorem inPlace_serve {c : Call} (hc : c.Steady node) (h : ∃ p, InPlace before node p s) :
    ∃ p, InPlace before node p (serve c s).2 := by
  obtain ⟨p, hp⟩ := h
  have hquiet : c.LeavesPeers → ∃ p, InPlace before node p (serve c s).2 := fun hleaves =>
    ⟨p, inPlace_of_peers hp (peers_exec hleaves _ _)⟩
  cases c with
  | updatePeer obj | patchPeer base modified => exact hc.elim
  | patchPeerStatus base modified =>
    obtain ⟨hmodified, hmembership⟩ := hc
    rcases store_patchPeerStatus (s.choices 0) s.world base modified with
      hsame | ⟨current, hcurrent, hkey, hstore⟩
    · exact ⟨p, inPlace_of_peers hp (congrArg Store.peers hsame)⟩
    · have hpeers : (serve (.patchPeerStatus base modified) s).2.world.store.peers =
          s.world.store.peers.put (patchedPeerStatus base modified current) :=
        congrArg Store.peers hstore
      obtain rfl : current = p := by
        rw [hmodified, hp.stored] at hcurrent
        exact (Option.some.inj hcurrent).symm
      obtain ⟨hstored, hspared⟩ := stored_put (p := patchedPeerStatus base modified current)
        hp.spared (hkey.trans hmodified) hpeers
      refine ⟨_, hstored, hspared, hp.same, hp.network, Eq.trans ?_ hp.membership⟩
      simp only [membership, Prod.mk.injEq] at hmembership ⊢
      simp [patchedPeerStatus, mergeStatus, hmembership]
  | _ => exact hquiet trivial

theorem ensures_lastReconcile (h : InHand before node s) (req : NamespacedName) :
    (lastReconcile lib node req).Ensures serve (fun _ t => ∃ p, InPlace before node p t) s := by
  have hsteady : (lastReconcile lib node req).Within (Call.Steady node) fun _ => True := by
    apply within_lastReconcile_of trivial _ trivial (fun _ => trivial) (fun _ => trivial)
    · intro c hc
      cases c <;> first | exact hc.elim | trivial
    · intro status hstatus
      exact ⟨rfl, hstatus⟩
  exact (ensures_of_within hsteady (fun _ _ => inPlace_serve) ⟨node, h.inPlace⟩).mono
    fun _ _ h => h.2

end Wireflow.Controller
