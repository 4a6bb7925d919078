/-
# All reconcilers together

One worker per peer, each running `Reconcile` for that peer over and over against
the shared world, and an environment that edits `Spec.Network`, assigns networks
their CIDR, and lets caches catch up. A schedule interleaves them call by call; a
peer has at most one reconcile in progress.
-/

import Wireflow.Controller.PeerReconciler
import Wireflow.Semantics.RelyGuarantee

namespace Wireflow.Controller

open Semantics
open Wireflow.Api

/-- What happens without a reconciler's doing. -/
inductive Disturbance
  | setSpecNetwork (key : NamespacedName) (network : Option String)
  | setActiveCIDR (key : NamespacedName) (cidr : String)
  /-- Caches have seen all but the last `n` stores. -/
  | catchUp (n : ℕ)

/-- A peer after an edit of `Spec.Network`. -/
def editedPeer (network : Option String) (p : LatticePeer) : LatticePeer :=
  { p with
    spec := { p.spec with network := network }
    metadata := { p.metadata with
      generation := nextGeneration p { p.spec with network := network }
      resourceVersion := p.metadata.resourceVersion + 1 } }

def disturb : Disturbance → World → World
  | .setSpecNetwork key network, w =>
      match w.store.peers.get key with
      | some p => w.commit { w.store with peers := w.store.peers.put (editedPeer network p) }
      | none => w
  | .setActiveCIDR key cidr, w =>
      match w.store.networks.get key with
      | some n => w.commit { w.store with
          networks := w.store.networks.put { n with activeCIDR := cidr } }
      | none => w
  | .catchUp n, w => { w with past := w.past.take n }

/-- All a disturbance can do. -/
theorem disturb_cases (e : Disturbance) (w : World) :
    disturb e w = w ∨
    (∃ key network p, w.store.peers.get key = some p ∧
      disturb e w = w.commit { w.store with
        peers := w.store.peers.put (editedPeer network p) }) ∨
    (∃ networks, disturb e w = w.commit { w.store with networks := networks }) ∨
    ∃ n, disturb e w = { w with past := w.past.take n } := by
  cases e with
  | setSpecNetwork key network =>
    rw [disturb]
    split
    · rename_i p hget
      exact .inr (.inl ⟨key, network, p, hget, rfl⟩)
    · exact .inl rfl
  | setActiveCIDR key cidr =>
    rw [disturb]
    split
    · exact .inr (.inr (.inl ⟨_, rfl⟩))
    · exact .inl rfl
  | catchUp n => exact .inr (.inr (.inr ⟨n, rfl⟩))

/-- The workers: one reconciler per peer. -/
def cluster (lib : SelectorLibrary) :
    Workers NamespacedName Call Call.Res World Choice Disturbance where
  program key := do
    let _ ← reconcile lib key
    pure ()
  exec := exec
  disturb := disturb

/-!
## Peers come and go

The cluster of `Wireflow.Controller.Cluster`, opened up in three ways. The list of endpoints
that `AllocateIP` asks for comes from a cache and may be as old as the reads of peers. Peers
are created and deleted, also under a name that was in use before. And the garbage collector
removes endpoints whose owner is gone, at any time after that.

A `Ledger` notes, besides the world, which version of its peer each reconciler works on.
-/

/-! ### Calls -/

structure Ledger where
  world : World
  /-- The version of its peer that each reconciler read last. -/
  copies : NamespacedName → Option LatticePeer := fun _ => none

/-- What is noted when the peer has been read. -/
def Ledger.note (l : Ledger) (key : NamespacedName) :
    Except GoError LatticePeer → NamespacedName → Option LatticePeer
  | .ok p => Function.update l.copies key (some p)
  | .error _ => l.copies

/-- Answer a call. A list of endpoints is taken from an earlier store, if the choice says so. -/
def observe : (c : Call) → Choice → Ledger → c.Res × Ledger
  | .getPeer key, ch, l =>
      ((exec (.getPeer key) ch l.world).1,
        { world := (exec (.getPeer key) ch l.world).2
          copies := l.note key (exec (.getPeer key) ch l.world).1 })
  | .listEndpoints ns, ch, l =>
      (ch.read (.ok ((l.world.seen ch.lag).endpoints.list ns ch.listOrder)), l)
  | c, ch, l => ((exec c ch l.world).1, { l with world := (exec c ch l.world).2 })

/-- Only the answer to a list differs from that of `exec`. -/
theorem observe_world (c : Call) (choice : Choice) (l : Ledger) :
    (observe c choice l).2.world = (exec c choice l.world).2 := by
  cases c <;> rfl

/-- Only reading a peer changes what is noted. -/
theorem observe_copies {c : Call} (hc : ∀ key, c ≠ .getPeer key) (choice : Choice) (l : Ledger) :
    (observe c choice l).2.copies = l.copies := by
  cases c with
  | getPeer key => exact absurd rfl (hc key)
  | _ => rfl

/-! ### What happens besides -/

inductive Happening
  | disturbance (d : Disturbance)
  | createPeer (obj : LatticePeer)
  | deletePeer (key : NamespacedName) (time : ℕ)
  /-- The garbage collector looks at an endpoint. -/
  | collect (key : NamespacedName)

/-- The API server drops the status of an object that is created. -/
def createdPeer (obj : LatticePeer) : LatticePeer :=
  { obj with
    status := {}
    metadata := { obj.metadata with deletionTimestamp := none } }

/-- A peer with finalizers is only marked when it is deleted. -/
def markedPeer (time : ℕ) (p : LatticePeer) : LatticePeer :=
  { p with
    metadata := { p.metadata with
      deletionTimestamp := some time
      resourceVersion := p.metadata.resourceVersion + 1 } }

/-- The owner of an endpoint does not exist any more. -/
def ownerGone (s : Store) (ep : LatticeEndpoint) : Bool :=
  match ep.metadata.controllerRef with
  | none => false
  | some uid => s.peers.objects.pairs.all fun e => e.2.metadata.uid != uid

def happen : Happening → World → World
  | .disturbance d, w => disturb d w
  | .createPeer obj, w =>
      match w.store.peers.get obj.metadata.key with
      | some _ => w
      | none => w.commit { w.store with peers := w.store.peers.put (createdPeer obj) }
  | .deletePeer key time, w =>
      match w.store.peers.get key with
      | none => w
      | some p =>
          if p.metadata.finalizers = [] then
            w.commit { w.store with peers := w.store.peers.erase key }
          else if p.metadata.deletionTimestamp.isSome then w
          else w.commit { w.store with peers := w.store.peers.put (markedPeer time p) }
  | .collect key, w =>
      match w.store.endpoints.get key with
      | none => w
      | some ep =>
          if ownerGone w.store ep then
            w.commit { w.store with endpoints := w.store.endpoints.erase key }
          else w

/-- One reconciler per peer, as in `cluster`. -/
def lifecycle (lib : SelectorLibrary) :
    Workers NamespacedName Call Call.Res Ledger Choice Happening where
  program := (cluster lib).program
  exec := observe
  disturb e l := { l with world := happen e l.world }

/-- The ledger after a schedule that starts with all reconcilers idle. -/
def ledgerAfter (lib : SelectorLibrary) (w : World)
    (schedule : List (Action NamespacedName Choice Happening)) : Ledger :=
  ((lifecycle lib).run (Workers.idle { world := w }) schedule).shared

/-! ### What happens to peers and endpoints -/

/-- No happening creates an endpoint, and one is removed only when its owner is gone. -/
theorem endpoints_happen (e : Happening) (w : World) :
    (happen e w).store.endpoints = w.store.endpoints ∨
      ∃ key ep, w.store.endpoints.get key = some ep ∧ ownerGone w.store ep = true ∧
        (happen e w).store.peers = w.store.peers ∧
        (happen e w).store.endpoints = w.store.endpoints.erase key := by
  cases e with
  | disturbance d =>
    rw [happen]
    rcases disturb_cases d w with h | ⟨key, network, p, -, h⟩ | ⟨networks, h⟩ | ⟨n, h⟩
    all_goals rw [h]; exact .inl rfl
  | createPeer obj =>
    rw [happen]
    split
    · exact .inl rfl
    · exact .inl rfl
  | deletePeer key time =>
    rw [happen]
    split
    · exact .inl rfl
    · split_ifs
      · exact .inl rfl
      · exact .inl rfl
      · exact .inl rfl
  | collect key =>
    rw [happen]
    split
    · exact .inl rfl
    · rename_i ep hget
      split_ifs with hgone
      · exact .inr ⟨key, ep, hget, hgone, rfl, rfl⟩
      · exact .inl rfl

end Wireflow.Controller
