/-
# From a snapshot to the message

`getPeerStateSnapshot` reads what a message depends on, and `generate` computes the
message from it. Both keep going when a read fails: the snapshot is returned with
what has been read so far, and `buildPolicy` leaves out the rule whose peers it
could not list. Callers see the result only.
-/

import Wireflow.Controller.Client
import Wireflow.Controller.PeerResolver

namespace Wireflow.Controller

open Go (GoMap)
open Go.Strings
open Wireflow.Api Wireflow.Infra

/-- `PeerStateSnapshot`. -/
structure PeerStateSnapshot where
  peer : LatticePeer
  network : Option LatticeNetwork := none
  policies : List LatticePolicy := []
  peers : List LatticePeer := []
  labels : Labels := ∅

/-- A selector that leaves the choice to the required labels. -/
def everything : Selector := fun _ => true

/-- The label requirement of a network; none for the empty name. -/
def networkRequirement (networkName : String) : List (String × String) :=
  if networkName = "" then [] else [(networkLabelKey networkName, "true")]

/-! ## The snapshot -/

/-- `findPeersByNetwork`. -/
def findPeersByNetwork (network : LatticeNetwork) : Prog (Except GoError (List LatticePeer)) :=
  Client.listPeers network.metadata.ns everything [(networkLabelKey network.metadata.name, "true")]

/-- The loop of `filterPoliciesForNode`: policies of the peer's own network whose
selector matches its labels. One invalid selector fails the whole. -/
def matchPolicies (lib : SelectorLibrary) (peer : LatticePeer) :
    List LatticePolicy → Except GoError (List LatticePolicy)
  | [] => .ok []
  | policy :: rest =>
      if policy.network ≠ peer.spec.network.getD "" then matchPolicies lib peer rest
      else
        match lib.labelSelectorAsSelector (some policy.peerSelector) with
        | .error err => .error (err.wrap ("invalid nodeSelector in policy " ++
            policy.metadata.ns ++ "/" ++ policy.metadata.name ++ ": "))
        | .ok selector => do
            let matched ← matchPolicies lib peer rest
            pure (if selector peer.metadata.labels then policy :: matched else matched)

variable (lib : SelectorLibrary)

/-- `filterPoliciesForNode`. -/
def filterPoliciesForNode (peer : LatticePeer) :
    Prog (Except GoError (List LatticePolicy)) := do
  match ← Client.listPolicies peer.metadata.ns with
  | .error err => pure (.error err)
  | .ok policies => pure (matchPolicies lib peer policies)

/-- The last part of the snapshot; an error leaves the policies out. -/
def addPolicies (snapshot : PeerStateSnapshot) :
    Prog PeerStateSnapshot := do
  match ← filterPoliciesForNode lib snapshot.peer with
  | .error _ => pure snapshot
  | .ok policies => pure { snapshot with policies := policies }

/-- `getPeerStateSnapshot`. Every error ends it early, with what it has so far. -/
def getPeerStateSnapshot (current : LatticePeer) (reqNs : String) :
    Prog PeerStateSnapshot :=
  let snapshot : PeerStateSnapshot := { peer := current, labels := current.metadata.labels }
  match current.spec.network with
  | none => addPolicies lib snapshot
  | some networkName => do
      match ← Client.getNetwork ⟨reqNs, networkName⟩ with
      | .error _ => pure snapshot
      | .ok network =>
          match ← findPeersByNetwork network with
          | .error _ => pure { snapshot with network := some network }
          | .ok peers =>
              addPolicies lib { snapshot with network := some network, peers := peers }

/-! ## Policies -/

/-- The names found so far, by UID, extended by one list of peers. -/
def addNames (found : GoMap String String) (nodes : List LatticePeer) : GoMap String String :=
  nodes.foldl (fun acc node => acc.insert node.metadata.uid node.metadata.name) found

/-- The loop of `getPeerNamesByLabels`. Its errors are only logged. -/
def collectNames (lib : SelectorLibrary) (ns networkName : String) :
    List PeerSelection → GoMap String String → Prog (Except GoError (GoMap String String))
  | [], found => pure (.ok found)
  | rule :: rest, found =>
      match rule.peerSelector with
      | none => collectNames lib ns networkName rest found
      | some peerSelector =>
          match lib.labelSelectorAsSelector (some peerSelector) with
          | .error err => pure (.error (err.wrap "failed to parse label selector: "))
          | .ok selector => do
              match ← Client.listPeers ns selector (networkRequirement networkName) with
              | .error err => pure (.error (err.wrap "failed to list nodes with selector: "))
              | .ok nodes => collectNames lib ns networkName rest (addNames found nodes)

/-- `getPeerNamesByLabels`: the names, sorted. -/
def getPeerNamesByLabels (ns networkName : String)
    (rules : List PeerSelection) : Prog (Except GoError (List String)) := do
  match ← collectNames lib ns networkName rules ∅ with
  | .error err => pure (.error err)
  | .ok found => pure (.ok (sortStrings (found.pairs.map Prod.snd)))

/-- `extractCIDRs`. -/
def extractCIDRs (rules : List PeerSelection) : List String :=
  rules.filterMap fun r =>
    match r.ipBlock with
    | some block => if block.cidr = "" then none else some block.cidr
    | none => none

/-- One rule for all ports, or one rule per port. -/
def rulesForPorts (names cidrs : List String) (ports : List NetworkPolicyPort)
    (action : String) : List Rule :=
  if ports.isEmpty then [{ peerNames := names, cidrs := cidrs, action := action }]
  else ports.map fun port =>
    { peerNames := names, cidrs := cidrs, protocol := port.protocol, port := port.port
      action := action }

/-- The rules of one direction of a policy. A rule whose peers cannot be listed is
left out. -/
def buildRules (lib : SelectorLibrary) (src : LatticePolicy) (action : String) :
    List (List PeerSelection × List NetworkPolicyPort) → Prog (List Rule)
  | [] => pure []
  | (selections, ports) :: rest => do
      match ← getPeerNamesByLabels lib src.metadata.ns src.network selections with
      | .error _ => buildRules lib src action rest
      | .ok names => do
          let rules ← buildRules lib src action rest
          pure (rulesForPorts names (extractCIDRs selections) ports action ++ rules)

/-- The action of a policy; allowing is the default. -/
def effectiveAction (src : LatticePolicy) : String :=
  if src.action = "" then "ALLOW" else src.action

/-- `buildPolicy`. -/
def buildPolicy (src : LatticePolicy) : Prog Policy := do
  let action := effectiveAction src
  let ingress ← buildRules lib src action (src.ingress.map fun r => (r.fromPeers, r.ports))
  let egress ← buildRules lib src action (src.egress.map fun r => (r.toPeers, r.ports))
  pure { policyName := src.metadata.name, action := action, ingress := ingress, egress := egress }

def buildPolicies (lib : SelectorLibrary) : List LatticePolicy → Prog (List Policy)
  | [] => pure []
  | src :: rest => do
      let policy ← buildPolicy lib src
      let policies ← buildPolicies lib rest
      pure (policy :: policies)

/-! ## The message -/

variable (orders : MapOrders)

/-- The peers of the network that have an address, as agents see them. -/
def transferPeers (peers : List LatticePeer) : List Infra.Peer :=
  (peers.filter fun p => p.status.allocatedAddress.isSome).mapIdx fun i p =>
    transferToPeer p (orders.routes (i + 1))

/-- The current peer as the message carries it. -/
def currentPeer (current : LatticePeer) (snapshot : PeerStateSnapshot) :
    Infra.Peer :=
  { transferToPeer current (orders.routes 0) with labels := snapshot.labels }

/-- The network part of the message. -/
def networkOf (snapshot : PeerStateSnapshot) : Network :=
  match snapshot.network with
  | none => {}
  | some network =>
      { networkId := network.metadata.name, networkName := network.specName
        peers := sortByName (transferPeers orders snapshot.peers) }

/-- `generate`. -/
def generate (current : LatticePeer) (snapshot : PeerStateSnapshot)
    (version : String) : Prog (Except GoError Message) := do
  let timestamp ← Client.now
  let orders ← Client.mapOrders
  let me := currentPeer orders current snapshot
  let network := networkOf orders snapshot
  match getComputedPeers lib me network snapshot.policies with
  | .error err => pure (.error err)
  | .ok computedPeers => do
      let policies ← buildPolicies lib snapshot.policies
      match evaluate orders (some me) (some network) policies with
      | .error err => pure (.error err)
      | .ok computedRules =>
          pure (.ok { eventType := .nodeUpdate, configVersion := version, timestamp := timestamp
                      current := me, network := network, policies := policies
                      computedPeers := computedPeers, computedRules := computedRules })

/-- Snapshot and message together, as `lastReconcile` computes them. -/
def buildMessage (peer : LatticePeer) (reqNs : String) :
    Prog (Except GoError Message) := do
  let snapshot ← getPeerStateSnapshot lib peer reqNs
  let version ← Client.generateConfigVersion
  generate lib peer snapshot version

end Wireflow.Controller
