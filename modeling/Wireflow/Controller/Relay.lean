/-
# The relay reconciler

`Reconcile` of `relay_controller.go`: a relay that is being deleted has its label removed from the
peers before its finalizer goes; otherwise the peers that carry the label are counted. The
requests may fail, each in its own way; a peer whose label cannot be removed is passed over.
-/

import Wireflow.Controller.Client

namespace Wireflow.Controller

open Wireflow.Api

inductive RelayPhase
  | empty
  | pending
  | active
  | disabled
  deriving DecidableEq, Repr

inductive RelayHealth
  | empty
  | healthy
  | degraded
  | offline
  | unknown
  deriving DecidableEq, Repr

structure RelayStatus where
  phase : RelayPhase := .empty
  health : RelayHealth := .empty
  connectedPeers : ℕ := 0
  lastProbeTime : Option ℕ := none
  deriving DecidableEq, Repr

structure LatticeRelayServer where
  metadata : ObjectMeta
  enabled : Bool := true
  /-- Empty for all namespaces. -/
  namespaces : List String := []
  status : RelayStatus := {}

def relayFinalizer : String := "relay.alattice.io/finalizer"

def relayPeerLabel : String := "relay.alattice.io/name"

/-- The errors of the requests, if any. -/
structure RelayFaults where
  getRelay : Option GoError := none
  listPeers : Option GoError := none
  updateRelay : Option GoError := none
  patchStatus : Option GoError := none
  patchPeer : NamespacedName → Option GoError := fun _ => none

structure RelayStore where
  relay : Option LatticeRelayServer
  peers : List LatticePeer

/-- `ctrl.Result`, with the delay in seconds. -/
structure RelayResult where
  requeue : Bool := false
  requeueAfter : ℕ := 0

/-- Whether a peer carries the label of a relay. -/
def labelled (relayName : String) (p : LatticePeer) : Bool :=
  carries p.metadata.labels [(relayPeerLabel, relayName)]

def withoutRelayLabel (p : LatticePeer) : LatticePeer :=
  { p with metadata := { p.metadata with labels := p.metadata.labels.erase relayPeerLabel } }

/-- `Patch` of the peer under a key. -/
def patchPeerAt (key : NamespacedName) (peers : List LatticePeer) : List LatticePeer :=
  peers.map fun p => if p.metadata.key = key then withoutRelayLabel p else p

variable (faults : RelayFaults) (relay : LatticeRelayServer) (peers : List LatticePeer)

/-- One turn of the loop of `clearPeers`. An error is only logged. -/
def clearPeer (peer : LatticePeer) : List LatticePeer :=
  match faults.patchPeer peer.metadata.key with
  | some _ => peers
  | none => patchPeerAt peer.metadata.key peers

/-- `clearPeers`, once the peers are listed. -/
def clearPeers (relayName : String) : List LatticePeer :=
  (peers.filter (labelled relayName)).foldl (clearPeer faults) peers

/-- `countConnectedPeers`. One namespace narrows the list, several filter it, and the empty
namespace stands for all. -/
def countConnectedPeers : ℕ :=
  let selected := peers.filter (labelled relay.metadata.name)
  match relay.namespaces with
  | [ns] => (selected.filter fun p => ns = "" || p.metadata.ns = ns).length
  | _ :: _ :: _ => selected.countP fun p => p.metadata.ns ∈ relay.namespaces
  | [] => selected.length

/-- `desiredPhase`. -/
def desiredPhase : RelayPhase :=
  if relay.enabled then .active else .disabled

/-- `desiredHealth`. -/
def desiredHealth : RelayHealth :=
  if relay.status.health = .empty then .unknown else relay.status.health

/-- The status that a count leads to. -/
def relayStatus (connected time : ℕ) : RelayStatus :=
  if relay.status.connectedPeers ≠ connected ∨ relay.status.phase ≠ desiredPhase relay ∨
      relay.status.health ≠ desiredHealth relay then
    { phase := desiredPhase relay
      health := desiredHealth relay
      connectedPeers := connected
      lastProbeTime := some time }
  else relay.status

/-- `RelayReconciler.Reconcile`. -/
def reconcileRelay (time : ℕ) (store : RelayStore) : Except GoError RelayResult × RelayStore :=
  match faults.getRelay, store.relay with
  | some err, _ => (.error err, store)
  | none, none => (.ok {}, store)
  | none, some relay =>
      if relay.metadata.deletionTimestamp.isSome then
        if relayFinalizer ∈ relay.metadata.finalizers then
          match faults.listPeers with
          | some err => (.error err, store)
          | none =>
              let peers := clearPeers faults store.peers relay.metadata.name
              match faults.updateRelay with
              | some err => (.error err, { store with peers := peers })
              | none =>
                  (.ok {},
                    { relay := some { relay with metadata := { relay.metadata with
                        finalizers := relay.metadata.finalizers.filter (· ≠ relayFinalizer) } }
                      peers := peers })
        else (.ok {}, store)
      else if relayFinalizer ∉ relay.metadata.finalizers then
        match faults.updateRelay with
        | some err => (.error err, store)
        | none =>
            (.ok { requeue := true },
              { store with relay := some { relay with metadata := { relay.metadata with
                  finalizers := relay.metadata.finalizers ++ [relayFinalizer] } } })
      else
        match faults.listPeers with
        | some err => (.error err, store)
        | none =>
            let status := relayStatus relay (countConnectedPeers relay store.peers) time
            -- an error is only logged
            (.ok { requeueAfter := 300 },
              if faults.patchStatus.isSome then store
              else { store with relay := some { relay with status := status } })

end Wireflow.Controller
