/-
# The network reconciler

`Reconcile` of `network_controller.go`: a network without a subnet is given one, and the number
of its peers is kept in its status. The subnet is created by one request and recorded in the
status of the network by another.

The object that was read is used to the end. What a patch returns is looked at only to see
whether the status has changed.
-/

import Wireflow.Controller.PeerReconciler
import Wireflow.Controller.Subnets

namespace Wireflow.Controller

open Go (GoMap Order)
open Go.Strings
open Semantics
open Wireflow.Api

/-- `reflect.DeepEqual` of two statuses. -/
def sameStatus (n n' : LatticeNetwork) : Bool :=
  n.activeCIDR == n'.activeCIDR && n.phase == n'.phase && n.allocatedCount == n'.allocatedCount

variable (network : LatticeNetwork)

/-- `NetworkReconciler.updateStatus`. A conflict is not an error. -/
def updateNetworkStatus (updateFunc : LatticeNetwork → LatticeNetwork) :
    NetworkProg (Except GoError Bool) := do
  match ← (NetworkCall.patchNetworkStatus network (updateFunc network)).issue with
  | .error err => if err.kind = .conflict then pure (.ok false) else pure (.error err)
  | .ok networkCopy => pure (.ok (!sameStatus networkCopy network))

/-- Status of a network whose subnet is being allocated. -/
def withCreating : LatticeNetwork := { network with phase := .creating }

/-- Status of a network that has got its subnet. -/
def withSubnet (cidr : String) (network : LatticeNetwork) : LatticeNetwork :=
  { network with activeCIDR := cidr, phase := .ready }

def withCount (count : ℕ) (network : LatticeNetwork) : LatticeNetwork :=
  { network with allocatedCount := count }

/-- The key of the only pool. -/
def poolKey : NamespacedName := ⟨"", "lattice-ip-pool"⟩

/-- The outcome of a reconcile, or none if it never returns. -/
abbrev NetworkOutcome := Option Outcome

/-- The last part: count the peers. -/
def countPeers : NetworkProg NetworkOutcome := do
  -- the label is not shortened here
  let label := "alattice.io/network-" ++ network.metadata.name
  match ← (NetworkCall.listPeers network.metadata.ns [(label, "true")]).issue with
  | .error err => pure (some (.error err))
  | .ok peers =>
      if network.allocatedCount = peers.length then pure (some (.ok {}))
      else
        match ← updateNetworkStatus network (withCount peers.length) with
        | .error err => pure (some (.error err))
        | .ok _ => pure (some (.ok {}))

/-- The subnet of a network that has none yet. -/
def assignSubnet : NetworkProg NetworkOutcome := do
  match ← (NetworkCall.getPool poolKey).issue with
  | .error err => pure (some (.error err))
  | .ok pool =>
      match ← allocateSubnet network.metadata.name pool with
      | none => pure none
      -- the delay that the source returns with this error has no effect
      | some (.error err) => pure (some (.error err))
      | some (.ok cidr) =>
          match ← updateNetworkStatus network (withSubnet cidr) with
          | .error err => pure (some (.error err))
          | .ok true => pure (some (.ok {}))
          | .ok false => countPeers network

/-- A network that nobody has touched is marked first. -/
def markCreating : NetworkProg (Except GoError Bool) :=
  if network.phase = .empty then updateNetworkStatus network withCreating else pure (.ok false)

/-- `NetworkReconciler.Reconcile`. -/
def reconcileNetwork (req : NamespacedName) : NetworkProg NetworkOutcome := do
  match ← (NetworkCall.getNetwork req).issue with
  | .error err =>
      if err.kind = .notFound then pure (some (.ok {})) else pure (some (.error err))
  | .ok network =>
      match ← markCreating network with
      | .error err => pure (some (.error err))
      | .ok _ => if network.activeCIDR = "" then assignSubnet network else countPeers network

/-!
## Runs of the network reconciler

One reconciler per network, at most one reconcile of each at a time, while networks are created
and deleted. A `Registry` notes which allocations have been created for which network, and
which of them by a reconcile that is still in progress.
-/

structure Registry where
  world : World
  /-- The name of the allocation that the reconcile in progress of a network has created. -/
  pending : NamespacedName → Option String := fun _ => none
  /-- The names of the allocations ever created for a network. -/
  created : NamespacedName → List String := fun _ => []

/-- What is noted of a call by the reconciler of `i`: an allocation that was not there before. -/
def Registry.after (r : Registry) (i : NamespacedName) : NetworkCall → World → Registry
  | .createAllocation x, w =>
      if (r.world.store.allocations.get x.metadata.key).isNone &&
          (w.store.allocations.get x.metadata.key).isSome then
        { world := w
          pending := Function.update r.pending i (some x.metadata.name)
          created := Function.update r.created i (r.created i ++ [x.metadata.name]) }
      else { r with world := w }
  | _, w => { r with world := w }

/-- Answer a call. With the end of a reconcile nothing is pending any more. -/
def register : (c : Note NamespacedName NetworkCall NetworkOutcome) → Choice → Registry →
    Note.Res NetworkCall.Res c × Registry
  | .call i c, ch, r =>
      ((execNetwork c ch r.world).1, r.after i c (execNetwork c ch r.world).2)
  | .done i _, _, r => ((), { r with pending := Function.update r.pending i none })

inductive NetworkHappening
  | createNetwork (obj : LatticeNetwork)
  | deleteNetwork (key : NamespacedName)

/-- The API server drops the status of an object that is created. -/
def createdNetwork (obj : LatticeNetwork) : LatticeNetwork :=
  { obj with activeCIDR := "", phase := .empty, allocatedCount := 0 }

def networkHappen : NetworkHappening → Registry → Registry
  | .createNetwork obj, r =>
      match r.world.store.networks.get obj.metadata.key with
      | some _ => r
      | none =>
          { r with
            world := r.world.commit { r.world.store with
              networks := r.world.store.networks.put (createdNetwork obj) } }
  | .deleteNetwork key, r =>
      { r with
        world := r.world.commit { r.world.store with
          networks := r.world.store.networks.erase key } }

def networkControllers :
    Workers NamespacedName (Note NamespacedName NetworkCall NetworkOutcome)
      (Note.Res NetworkCall.Res) Registry Choice NetworkHappening where
  program i := (reconcileNetwork i).journal i
  exec := register
  disturb := networkHappen

/-- The registry after a schedule that starts with all reconcilers idle. -/
def registryAfter (w : World) (schedule : List (Action NamespacedName Choice NetworkHappening)) :
    Registry :=
  (networkControllers.run (Workers.idle { world := w }) schedule).shared

/-!
## Readers of the network label

What the components other than the peer controller ask for when they look for the members or the
gateways of a network. They write the name of the network out, where the peer controller shortens
it. `mapNodeForNetworks` goes the other way, from the label back to the name.
-/

def labelGateway : String := "alattice.io/gateway"

variable (networkName : String)

/-- The labels `findNodesByLabels` lists by, to count the peers of a network. -/
def findNodesByLabels : Labels :=
  GoMap.ofPairs [(networkLabelStart ++ networkName, "true")]

/-- `mapNodeForNetworks`: the networks to reconcile after a change of a peer. -/
def mapNodeForNetworks (node : LatticePeer) (order : Order) : List NamespacedName :=
  let labelled := (node.metadata.labels.range order).filterMap fun (key, value) =>
    if hasPrefix key networkLabelStart && value == "true" then
      some (trimStart key networkLabelStart)
    else none
  (node.spec.network.toList ++ labelled).map fun networkName => ⟨node.metadata.ns, networkName⟩

/-- The labels of the shadow that `ensureRemoteGatewayShadow` makes. -/
def remoteGatewayShadowLabels : Labels :=
  GoMap.ofPairs [(labelShadow, "true"), (networkLabelStart ++ networkName, "true")]

/-- The labels `findGatewayForCluster` lists by. -/
def findGatewayForCluster : Labels :=
  GoMap.ofPairs [(labelGateway, "true"), (networkLabelStart ++ networkName, "true")]

/-- The policy that `NatsAllowAll` applies. -/
def allowAllPolicy (ns networkName : String) : LatticePolicy :=
  let peerSel : LabelSelector :=
    { matchLabels := GoMap.ofPairs [(networkLabelStart ++ networkName, "true")] }
  { metadata := { ns := ns, name := "allow-all" }
    network := networkName
    peerSelector := peerSel
    ingress := [{ fromPeers := [{ peerSelector := some peerSel }] }]
    egress := [{ toPeers := [{ peerSelector := some peerSel }] }]
    action := "ALLOW" }

/-- The labels `gatewayInfo` lists by. -/
def gatewayInfoLabels : Labels :=
  GoMap.ofPairs [("alattice.io/gateway", "true"), (networkLabelStart ++ networkName, "true")]

end Wireflow.Controller
