/-
# The peer reconciler

`PeerReconciler.Reconcile` as a program over calls: deletion and finalizers first,
shadow peers skipped, then a state machine over `Status.Phase`. A reconcile works
on its own copy of the peer; `updateSpec` and `updateStatus` patch the server and
carry what it answered back into that copy, which is why they return it.

Logging and events are left out.
-/

import Wireflow.Controller.Generator
import Wireflow.Controller.Ipam

namespace Wireflow.Controller

open Go.Strings
open Wireflow.Api

/-- `ctrl.Result`, with the requeue delay in nanoseconds. -/
structure Result where
  requeueAfter : ℕ := 0
  deriving DecidableEq, Repr

abbrev Outcome := Except GoError Result

def milliseconds (n : ℕ) : ℕ := n * 1000000

def seconds (n : ℕ) : ℕ := n * 1000000000

def finalizerName : String := "alattice.io/node"

/-- `%q` for an object name. -/
def quoted (name : String) : String := "\"" ++ name ++ "\""

/-! ## Patching the peer -/

/-- `updateSpec`. A conflict is left to the next reconcile. -/
def updateSpec (node : LatticePeer)
    (updateFunc : LatticePeer → Prog (Except GoError LatticePeer)) :
    Prog (LatticePeer × Except GoError Bool) := do
  match ← updateFunc node with
  | .error err => pure (node, .error err)
  | .ok nodeCopy =>
      if nodeCopy.spec = node.spec ∧
          nodeCopy.metadata.labels.deepEqual node.metadata.labels ∧
          nodeCopy.metadata.annotations.deepEqual node.metadata.annotations then
        pure (node, .ok false)
      else
        match ← Client.patchPeer node nodeCopy with
        | .error err =>
            if err.kind = .conflict then pure (node, .ok false) else pure (node, .error err)
        | .ok patched =>
            pure ({ node with
              spec := patched.spec
              metadata := { node.metadata with
                labels := patched.metadata.labels
                annotations := patched.metadata.annotations
                resourceVersion := patched.metadata.resourceVersion } }, .ok true)

/-- `updateStatus`. The update looks at and changes the status only. -/
def updateStatus (node : LatticePeer)
    (updateFunc : LatticePeerStatus → Prog LatticePeerStatus) :
    Prog (LatticePeer × Except GoError Bool) := do
  let status ← updateFunc node.status
  if status = node.status then pure (node, .ok false)
  else
    match ← Client.patchPeerStatus node { node with status := status } with
    | .error err =>
        if err.kind = .conflict then pure (node, .ok false) else pure (node, .error err)
    | .ok patched =>
        pure ({ node with
          status := patched.status
          metadata := { node.metadata with
            resourceVersion := patched.metadata.resourceVersion } }, .ok true)

/-- Set one condition, stamped with the current time. -/
def withCondition (type : String) (status : ConditionStatus) (reason message : String)
    (st : LatticePeerStatus) : Prog LatticePeerStatus := do
  let time ← Client.now
  let c : Condition :=
    { type := type, status := status, reason := reason, message := message
      lastTransitionTime := time }
  pure { st with conditions := setCondition st.conditions c }

/-- Move to another phase and touch nothing else. -/
def withPhase (phase : LatticePeerPhase) (st : LatticePeerStatus) : Prog LatticePeerStatus :=
  pure { st with phase := phase }

variable (lib : SelectorLibrary) (peer : LatticePeer)

/-- Record a failure in the status and return the error; a second error while
recording is only logged. -/
def failWith (type reason message : String) (err : GoError) :
    Prog Outcome := do
  let _ ← updateStatus peer fun st =>
    withCondition type .false reason message { st with phase := .failed }
  pure (.error err)

/-! ## The configuration -/

/-- `newConfigmap`. -/
def newConfigmap (ns configMapName message hash : String) : ConfigMap :=
  { metadata :=
      { ns := ns
        name := configMapName
        labels := Go.GoMap.ofPairs [("app.kubernetes.io/managed-by", "lattice-controller")]
        annotations := Go.GoMap.ofPairs [("alattice.io/config-hash", hash)] }
    data := Go.GoMap.ofPairs [("config.json", message)] }

/-- The name of a peer's configuration map. -/
def configMapName : String := peer.metadata.name ++ "-config"

/-- Where the configuration of a peer is kept. -/
def configKey : NamespacedName := ⟨peer.metadata.ns, configMapName peer⟩

/-- Note in the status that the configuration could not be written. -/
def configFailed (what : String) (err : GoError) : Prog Outcome := do
  let _ ← updateStatus peer
    (withCondition NodeCondition.networkConfigured .false Reason.configFailed (what ++ err.text))
  pure (.error err)

/-- Note in the status which configuration was written. -/
def configWritten (newHash : String) : Prog Outcome := do
  let (_, updated) ← updateStatus peer fun st =>
    withCondition NodeCondition.networkConfigured .true Reason.ready ""
      { st with currentHash := newHash }
  match updated with
  | .error err => pure (.error err)
  | .ok _ => pure (.ok {})

/-- The desired configuration map, with the peer as its owner. -/
def desiredConfigMap (message : Infra.Message) : ConfigMap :=
  let desired := newConfigmap peer.metadata.ns (configMapName peer) message.string
    (Infra.computeMessageHash message)
  { desired with
    metadata := { desired.metadata with controllerRef := some peer.metadata.uid } }

/-- Write the configuration; creating and updating differ in the text of the failure. -/
def writeConfig (message : Infra.Message) (what : String) :
    Prog Outcome := do
  match ← Client.applyConfigMap (desiredConfigMap peer message) with
  | .error err => configFailed peer what err
  | .ok _ => configWritten peer (Infra.computeMessageHash message)

/-- The second half of `lastReconcile`: write the configuration unless the status
says that it has been written already. -/
def publish (message : Infra.Message) : Prog Outcome := do
  match ← Client.setControllerReference with
  | .error err => pure (.error err)
  | .ok _ =>
      match ← Client.getConfigMap (configKey peer) with
      | .error err =>
          if err.kind ≠ .notFound then pure (.error err)
          else writeConfig peer message "Failed to create config: "
      | .ok _ =>
          -- what is compared is the hash in the status, not the stored configuration
          if peer.status.currentHash = Infra.computeMessageHash message then pure (.ok {})
          else writeConfig peer message "Failed to update config: "

/-- `lastReconcile`. -/
def lastReconcile (req : NamespacedName) :
    Prog Outcome := do
  match ← buildMessage lib peer req.ns with
  | .error err => pure (.error err)
  | .ok message => publish peer message

/-! ## Joining and leaving -/

/-- Drop every network label. -/
def removeNetworkLabels (labels : Labels) : Labels :=
  labels.deleteWhere fun label => hasPrefix label networkLabelStart

/-- `getNetwork`, for a peer whose network is set. -/
def getNetwork (networkName : String) :
    Prog (Except GoError LatticeNetwork) := do
  match ← Client.getNetwork ⟨peer.metadata.ns, networkName⟩ with
  | .error err => pure (.error (err.wrap "failed to get joined network: "))
  | .ok network => pure (.ok network)

/-- `ensurePeerSpec`: carry the label of the network to join and of no other. -/
def ensurePeerSpec (networkName : String) :
    Prog (LatticePeer × Except GoError Bool) :=
  updateSpec peer fun node => do
    match ← getNetwork node networkName with
    | .error err => pure (.error err)
    | .ok network =>
        pure (.ok { node with
          metadata := { node.metadata with
            labels := (removeNetworkLabels node.metadata.labels).insert
              (networkLabelKey network.metadata.name) "true" } })

/-- The status of a peer that has joined. -/
def joinedStatus (networkName address : String) (st : LatticePeerStatus) :
    Prog LatticePeerStatus := do
  let st ← withCondition NodeCondition.joiningNetwork .true Reason.ready ""
    { st with phase := .ready, allocatedAddress := some address, activeNetwork := some networkName }
  withCondition NodeCondition.ipAllocated .true Reason.ready "" st

/-- The last part of `joinNetwork`: allocate, record, publish. -/
def joinWithAddress (networkName : String)
    (network : LatticeNetwork) (req : NamespacedName) : Prog Outcome := do
  match ← allocateIP network peer with
  | .error err => failWith peer NodeCondition.ipAllocated Reason.allocationFailed err.text err
  | .ok address => do
      let (peer, updated) ← updateStatus peer (joinedStatus networkName address)
      match updated with
      | .error err => pure (.error err)
      | .ok _ => lastReconcile lib peer req

/-- `joinNetwork`, for a peer whose `Spec.Network` is `networkName`. -/
def joinNetwork (networkName : String)
    (req : NamespacedName) : Prog Outcome := do
  if peer.status.activeNetwork = some networkName then pure (.ok {})
  else
    match ← Client.getNetwork ⟨peer.metadata.ns, networkName⟩ with
    | .error err =>
        failWith peer NodeCondition.joiningNetwork Reason.notReady
          ("Network " ++ quoted networkName ++ " not found: " ++ err.text) err
    | .ok network =>
        if network.activeCIDR = "" then do
          let _ ← updateStatus peer
            (withCondition NodeCondition.joiningNetwork .false Reason.configuring
              ("Waiting for network " ++ quoted network.metadata.name ++
                " to assign an ActiveCIDR"))
          pure (.ok { requeueAfter := seconds 3 })
        else do
          let (peer, changed) ← ensurePeerSpec peer networkName
          match changed with
          | .error err =>
              failWith peer NodeCondition.joiningNetwork Reason.notReady
                ("Failed to apply network labels: " ++ err.text) err
          | .ok true => pure (.ok { requeueAfter := milliseconds 100 })
          | .ok false => joinWithAddress lib peer networkName network req

/-- The status of a peer that has left. -/
def leftStatus (st : LatticePeerStatus) : Prog LatticePeerStatus :=
  withCondition NodeCondition.joiningNetwork .false Reason.leaving ""
    { st with activeNetwork := none, allocatedAddress := none, phase := .ready }

/-- `leaveNetwork` once the address is released: labels, status, configuration. -/
def leaveReleased (req : NamespacedName) :
    Prog Outcome := do
  let (peer, changed) ← updateSpec peer fun p =>
    pure (.ok { p with
      metadata := { p.metadata with labels := removeNetworkLabels p.metadata.labels } })
  match changed with
  | .error err =>
      failWith peer NodeCondition.provisioned Reason.notReady
        ("Failed to remove network labels: " ++ err.text) err
  | .ok _ => do
      let (peer, updated) ← updateStatus peer leftStatus
      match updated with
      | .error err => pure (.error err)
      | .ok _ =>
          if peer.spec.network.isSome then pure (.ok { requeueAfter := milliseconds 100 })
          else lastReconcile lib peer req

/-- `leaveNetwork`. -/
def leaveNetwork (req : NamespacedName) :
    Prog Outcome := do
  match peer.status.allocatedAddress with
  | none => leaveReleased lib peer req
  | some address =>
      match ← releaseIP peer.metadata.ns address with
      | .error err => pure (.error err)
      | .ok _ => leaveReleased lib peer req

/-! ## The state machine -/

/-- `ensureKeys`. -/
def ensureKeys : Prog (LatticePeer × Except GoError Bool) :=
  if peer.spec.privateKey ≠ "" then pure (peer, .ok false)
  else updateSpec peer fun node => do
    match ← Client.generatePrivateKey with
    | .error err => pure (.error err)
    | .ok key =>
        pure (.ok { node with
          spec := { node.spec with
            privateKey := key.privateKey
            publicKey := key.publicKey
            peerId := Nat.repr key.peerId } })

/-- `handleInitialization`. -/
def handleInitialization : Prog Outcome := do
  let (peer, changed) ← ensureKeys peer
  match changed with
  | .error err => pure (.error err)
  | .ok true => pure (.ok {})
  | .ok false => do
      let (_, updated) ← updateStatus peer fun st =>
        withCondition NodeCondition.initialized .true Reason.ready "" { st with phase := .pending }
      match updated with
      | .error err => pure (.error err)
      | .ok _ => pure (.ok { requeueAfter := milliseconds 100 })

/-- `handlePending`. -/
def handlePending (req : NamespacedName) :
    Prog Outcome :=
  match peer.spec.network, peer.status.activeNetwork with
  | none, none => do
      let (peer, updated) ← updateStatus peer (withPhase .ready)
      match updated with
      | .error err => pure (.error err)
      | .ok _ => lastReconcile lib peer req
  | none, some _ => leaveNetwork lib peer req
  | some specNet, some activeNet =>
      -- on a switch the old address is released before a new one is allocated
      if activeNet ≠ specNet then leaveNetwork lib peer req else joinNetwork lib peer specNet req
  | some specNet, none => joinNetwork lib peer specNet req

/-- Whether the network asked for and the network joined differ. -/
def needTransition : Bool :=
  let specNet := peer.spec.network
  let activeNet := peer.status.activeNetwork
  (specNet.isNone && activeNet.isSome) ||
    (specNet.isSome && (activeNet.isNone || specNet != activeNet))

/-- `handleReady`. -/
def handleReady (req : NamespacedName) :
    Prog Outcome :=
  if needTransition peer then do
    let (_, updated) ← updateStatus peer (withPhase .pending)
    match updated with
    | .error err => pure (.error err)
    | .ok _ => pure (.ok { requeueAfter := milliseconds 100 })
  else lastReconcile lib peer req

/-- `handleFailed`. -/
def handleFailed : Prog Outcome := do
  let (_, updated) ← updateStatus peer (withPhase .pending)
  match updated with
  | .error err => pure (.error err)
  | .ok _ => pure (.ok { requeueAfter := seconds 30 })

/-- `handleDelete`; there is nothing to clean up but the finalizer. -/
def handleDelete (node : LatticePeer) : Prog Outcome :=
  if finalizerName ∉ node.metadata.finalizers then pure (.ok {})
  else do
    match ← Client.updatePeer { node with
        metadata := { node.metadata with
          finalizers := node.metadata.finalizers.filter (· ≠ finalizerName) } } with
    | .error err => pure (.error err)
    | .ok _ => pure (.ok {})

/-- The switch over `Status.Phase`. -/
def handlePhase (req : NamespacedName) :
    Prog Outcome :=
  match peer.status.phase with
  | .empty => handleInitialization peer
  | .pending => handlePending lib peer req
  | .ready => handleReady lib peer req
  | .failed => handleFailed peer
  | .provisioning => handleInitialization peer

/-- `Reconcile`. -/
def reconcile (req : NamespacedName) : Prog Outcome := do
  match ← Client.getPeer req with
  | .error err => if err.kind = .notFound then pure (.ok {}) else pure (.error err)
  | .ok peer =>
      if peer.metadata.deletionTimestamp.isSome then
        if finalizerName ∈ peer.metadata.finalizers then handleDelete peer else pure (.ok {})
      else if finalizerName ∉ peer.metadata.finalizers then do
        match ← Client.updatePeer { peer with
            metadata := { peer.metadata with
              finalizers := peer.metadata.finalizers ++ [finalizerName] } } with
        | .error err => pure (.error err)
        | .ok _ => pure (.ok { requeueAfter := 100 })
      else if peer.metadata.labels.get labelShadow = "true" then pure (.ok {})
      else handlePhase lib peer req

end Wireflow.Controller
