/-
# The node and its peers

What a node keeps about remote peers, in three places: the peer manager, which signalling
packets are resolved through; the probes, one for each remote `AppID`; and the entries of
the WireGuard device. Configuration messages write the first two, signalling packets all
three, and the goroutines of a probe the device.

`HandleEvent` is modelled for messages without a `Changes` section, which is how the
controller sends them. A probe that was removed is closed, and is out of the picture.
-/

import Wireflow.Infra.Message

namespace Wireflow.Agent

open Wireflow.Api (GoError)
open Wireflow.Infra Function

/-! ## Identities -/

/-- A WireGuard key. -/
abbrev Key := BitVec 256

/-- `PeerID`: the first eight bytes of a public key. -/
abbrev PeerID := BitVec 64

/-- `FromKey`. -/
def fromKey (key : Key) : PeerID := key.extractLsb' 192 64

/-- How keys are read from text. -/
structure KeyCodec where
  parseKey : String → Option Key

structure PeerIdentity where
  appId : String
  publicKey : Key
  deriving DecidableEq, Repr

/-- `isInitiator`: the side with the larger id drives the handshake. -/
def isInitiator (own remote : PeerIdentity) : Bool :=
  decide ((fromKey remote.publicKey).toNat < (fromKey own.publicKey).toNat)

/-- `PeerManager`: peers by `AppID` and by `PeerID`. -/
structure PeerManager where
  peers : String → Option Peer := fun _ => none
  byID : PeerID → Option Peer := fun _ => none

variable (codec : KeyCodec)

namespace PeerManager

/-- `PeerManager.AddPeer`. -/
def addPeer (appId : String) (peer : Peer) (m : PeerManager) : PeerManager :=
  { peers := update m.peers appId (some peer)
    byID :=
      if peer.publicKey = "" then m.byID
      else
        match codec.parseKey peer.publicKey with
        | none => m.byID
        | some key => update m.byID (fromKey key) (some peer) }

/-- Sets or deletes the entry for the key of a peer, if the key is valid. -/
def index (peer : Peer) (entry : Option Peer) (byID : PeerID → Option Peer) :
    PeerID → Option Peer :=
  if peer.publicKey = "" then byID
  else
    match codec.parseKey peer.publicKey with
    | none => byID
    | some key => update byID (fromKey key) entry

/-- `PeerManager.RemovePeer`. -/
def removePeer (appId : String) (m : PeerManager) : PeerManager :=
  { peers := update m.peers appId none
    byID :=
      match m.peers appId with
      | none => m.byID
      | some peer => index codec peer none m.byID }

/-- `GetIdentity`. -/
def getIdentity (id : PeerID) (m : PeerManager) : Option PeerIdentity :=
  match m.byID id with
  | none => none
  | some peer =>
      if peer.publicKey = "" then none
      else (codec.parseKey peer.publicKey).map fun key => ⟨peer.appId, key⟩

end PeerManager

/-! ## Probes -/

/-- `PeerState`. -/
inductive PeerState
  | created
  | probing
  | iceReady
  | wrrpReady
  | failed
  | closed
  deriving DecidableEq, Repr

/-- `allowedTransitions`. -/
def allowedTransitions : PeerState → List PeerState
  | .created => [.probing]
  | .probing => [.iceReady, .wrrpReady, .failed]
  | .wrrpReady => [.iceReady, .failed, .closed]
  | .iceReady => [.failed, .closed]
  | .failed => [.probing, .closed]
  | .closed => []

inductive TransportType
  | ice
  | wrrp
  deriving DecidableEq, Repr

/-- `iceDialer`. -/
structure IceDialer where
  closed : Bool := false
  /-- An ICE agent exists. -/
  agent : Bool := false
  credentialsInited : Bool := false

/-- `wrrpDialer`. -/
structure WrrpDialer where
  active : Bool := false

/-- `Probe`, with what its closures in `NewProbe` and its configurator remember. -/
structure Probe where
  remoteId : PeerIdentity
  state : PeerState := .created
  running : Bool := false
  transport : Option TransportType := none
  remotePeer : Option Peer := none
  peerKnownDone : Bool := false
  /-- The configurator has registered the key. -/
  registered : Bool := false
  ice : IceDialer := {}
  wrrp : WrrpDialer := {}

/-- The keys the WireGuard device has an entry for. -/
abbrev Device := Key → Bool

namespace Probe

/-- `SetEndpoint`, which writes an entry. -/
def setEndpoint (wgFails : Bool) (p : Probe) (device : Device) : Device :=
  if wgFails then device else update device p.remoteId.publicKey true

/-- The callback that `NewProbe` installs. -/
def onTransition (source target : PeerState) (wgFails : Bool) (p : Probe) (device : Device) :
    Probe × Device :=
  if source = .probing ∧ (target = .iceReady ∨ target = .wrrpReady) then
    match p.remotePeer with
    | none => (p, device)
    | some peer =>
        if peer.address.isSome ∧ p.transport.isSome then (p, p.setEndpoint wgFails device)
        else (p, device)
  else if source = .wrrpReady ∧ target = .iceReady then
    if p.transport.isSome then (p, p.setEndpoint wgFails device) else (p, device)
  else if target = .failed ∨ target = .closed then
    ({ p with registered := false },
      if wgFails then device else update device p.remoteId.publicKey false)
  else (p, device)

/-- `Transition`. -/
def transition (target : PeerState) (wgFails : Bool) (p : Probe) (device : Device) :
    Probe × Device :=
  if target ∈ allowedTransitions p.state then
    onTransition p.state target wgFails { p with state := target } device
  else (p, device)

/-- `Start`. The callback does nothing on the way to `probing`. -/
def start (p : Probe) : Probe :=
  if p.running then p
  else
    { p with
      running := true
      state := if .probing ∈ allowedTransitions p.state then .probing else p.state }

/-- `restart`: fresh dialers, and discovery from the start. -/
def restart (p : Probe) : Probe :=
  start { p with peerKnownDone := false, ice := {}, wrrp := {}, running := false }

/-- `onPeerKnown`: register the key unless that was done. -/
def onPeerKnown (peer : Peer) (wgFails : Bool) (p : Probe) (device : Device) : Probe × Device :=
  if p.peerKnownDone || peer.address.isNone then (p, device)
  else if p.registered then ({ p with peerKnownDone := true }, device)
  else if wgFails then ({ p with registered := true, peerKnownDone := false }, device)
  else ({ p with registered := true, peerKnownDone := true },
    update device p.remoteId.publicKey true)

end Probe

/-! ## Signalling packets -/

/-- The types of packets between peers. Configuration messages, which come in packets of a type
of their own, are handed to `HandleEvent`. -/
inductive PacketType
  | unknown
  | handshakeSyn
  | handshakeAck
  | offer
  | answer
  deriving DecidableEq, Repr

/-- The peer info in a packet, which may be missing or not be the JSON of a peer. -/
inductive PeerInfo
  | absent
  | garbled
  | decoded (peer : Peer)

def PeerInfo.peer? : PeerInfo → Option Peer
  | .decoded peer => some peer
  | .absent | .garbled => none

def PeerInfo.isPresent : PeerInfo → Bool
  | .absent => false
  | .garbled | .decoded _ => true

/-- `SignalPacket`. -/
structure SignalPacket where
  senderId : PeerID
  dialer : TransportType
  type : PacketType
  info : PeerInfo := .absent

/-- What may go wrong while a packet is handled. -/
structure Trouble where
  sendFails : Bool := false
  agentFails : Bool := false
  wgFails : Bool := false

variable (trouble : Trouble) (pk : SignalPacket) (p : Probe)

namespace Probe

/-- The peer that `iceDialer.Handle` takes from a packet. -/
def iceReceives : Option Peer :=
  match pk.type with
  | .handshakeAck =>
      if p.ice.closed || !p.ice.agent || p.ice.credentialsInited then none else pk.info.peer?
  | .handshakeSyn =>
      if p.ice.closed || p.ice.credentialsInited then none else pk.info.peer?
  | .offer | .answer => if p.ice.credentialsInited then none else pk.info.peer?
  | .unknown => none

/-- What else `iceDialer.Handle` does. -/
def iceAfter : Probe :=
  match pk.type with
  | .handshakeAck =>
      if p.ice.closed || !p.ice.agent || !pk.info.isPresent then p
      else { p with ice := { p.ice with credentialsInited := true } }
  | .handshakeSyn =>
      if p.ice.closed then p
      else
        let ice :=
          if pk.info.isPresent then { p.ice with credentialsInited := true } else p.ice
        -- a handshake on an active agent means that the other side has restarted
        if p.ice.agent then { p with ice := { ice with closed := true, agent := false } }
        else if trouble.sendFails || trouble.agentFails then { p with ice := ice }
        else { p with ice := { ice with agent := true } }
  | .offer | .answer => { p with ice := { p.ice with credentialsInited := true } }
  | .unknown => p

/-- The peer that `wrrpDialer.Handle` takes from a packet. -/
def wrrpReceives (_p : Probe) : Option Peer :=
  match pk.type with
  | .handshakeSyn | .handshakeAck | .offer | .answer => pk.info.peer?
  | .unknown => none

/-- What else `wrrpDialer.Handle` does. -/
def wrrpAfter : Probe :=
  match pk.type with
  | .handshakeSyn => if p.wrrp.active then p.restart else p
  | .offer | .answer =>
      if pk.info.peer?.isSome then { p with wrrp := { p.wrrp with active := true } } else p
  | .handshakeAck | .unknown => p

/-- The peer that the dialer of a packet takes from it. -/
def receives : Option Peer :=
  match pk.dialer with
  | .ice => p.iceReceives pk
  | .wrrp => p.wrrpReceives pk

/-- What else the dialer of a packet does. -/
def after : Probe :=
  match pk.dialer with
  | .ice => p.iceAfter trouble pk
  | .wrrp => p.wrrpAfter pk

end Probe

/-! ## The node -/

/-- `Node`, with its peer manager, its probe factory and its device. -/
structure Node where
  /-- The node itself, as it was registered. -/
  current : Peer
  localId : PeerIdentity
  manager : PeerManager := {}
  probes : String → Option Probe := fun _ => none
  device : Device := fun _ => false

namespace Node

/-- `ProbeFactory.Get`: the probe for the `AppID`, or a new one. -/
def getProbe (remoteId : PeerIdentity) (n : Node) : Probe :=
  (n.probes remoteId.appId).getD { remoteId := remoteId }

def setProbe (appId : String) (p : Probe) (n : Node) : Node :=
  { n with probes := update n.probes appId (some p) }

/-- `onPeerReceived`, if the dialer took a peer from the packet. -/
def onPeerReceived (appId : String) (p : Probe)
    (received : Option Peer) (n : Node) : Node :=
  match received with
  | none => n.setProbe appId p
  | some peer =>
      let known :=
        Probe.onPeerKnown peer trouble.wgFails { p with remotePeer := some peer } n.device
      { n.setProbe appId known.1 with
        manager := n.manager.addPeer codec peer.appId peer
        device := known.2 }

/-- `ProbeFactory.Handle`, for packets other than configuration messages. -/
def handle (n : Node) : Node :=
  match n.manager.getIdentity codec pk.senderId with
  | none => n
  | some remoteIdentity =>
      let probe := n.getProbe remoteIdentity
      let received :=
        n.onPeerReceived codec trouble remoteIdentity.appId probe (probe.receives pk)
      received.setProbe remoteIdentity.appId
        ((received.getProbe remoteIdentity).after trouble pk)

/-- `AddPeer` of the node, with that of the client: remember the peer, and start a probe
unless the peer is the node itself. -/
def addPeer (peer : Peer) (n : Node) : Except GoError Unit × Node :=
  let n := { n with manager := n.manager.addPeer codec peer.appId peer }
  if peer.publicKey = n.current.publicKey then (.ok (), n)
  else
    match codec.parseKey peer.publicKey with
    | none => (.error { text := "failed to parse key" }, n)
    | some key =>
        (.ok (), n.setProbe peer.appId (n.getProbe ⟨peer.appId, key⟩).start)

/-- `applyRemotePeers`, up to the first peer that cannot be added. -/
def applyRemotePeers (codec : KeyCodec) : List Peer → Node → Except GoError Unit × Node
  | [], n => (.ok (), n)
  | peer :: peers, n =>
      match n.addPeer codec peer with
      | (.error err, n) => (.error err, n)
      | (.ok _, n) => n.applyRemotePeers codec peers

/-- What the provisioner answers to `ApplyIP` and to `Provision`. -/
structure Provisioned where
  applyIP : Except GoError Unit := .ok ()
  provision : Except GoError Unit := .ok ()

/-- The node's own peer as it is stored: with an address, `AllowedIPs` is never empty. -/
def withAllowedIPs (peer : Peer) (address : String) : Peer :=
  if peer.allowedIPs = "" then { peer with allowedIPs := address ++ "/32" } else peer

variable (answers : Provisioned)

/-- The first part of `ApplyFullConfig`: the node's own address and peer. -/
def applyCurrent (current : Peer) (n : Node) :
    Except GoError Unit × Node :=
  match current.address with
  | none => (.ok (), n)
  | some address =>
      match answers.applyIP with
      | .error err => (.error err, n)
      | .ok _ => n.addPeer codec (withAllowedIPs current address)

/-- `ApplyFullConfig`. -/
def applyFullConfig (msg : Message) (n : Node) :
    Except GoError Unit × Node :=
  match n.applyCurrent codec answers msg.current with
  | (.error err, n) => (.error err, n)
  | (.ok _, n) =>
      match n.applyRemotePeers codec msg.computedPeers with
      | (.error err, n) => (.error err, n)
      | (.ok _, n) => (answers.provision, n)

/-- `HandleEvent`, for a message without changes. -/
def handleEvent (msg : Message) (n : Node) :
    Except GoError Unit × Node :=
  match n.applyFullConfig codec answers msg with
  | (.error err, n) =>
      (.error { err with text := "failed to apply full configuration: " ++ err.text }, n)
  | (.ok _, n) => (.ok (), n)

/-- `RemovePeer` of the node. -/
def removePeer (wgFails : Bool) (peer : Peer) (n : Node) :
    Except GoError Unit × Node :=
  let n := { n with probes := update n.probes peer.appId none }
  match codec.parseKey peer.publicKey with
  | none => (.error { text := "IPC error" }, n)
  | some key =>
      if wgFails then (.error { text := "IPC error" }, n)
      else (.ok (), { n with device := update n.device key false })

/-! ## Goroutines -/

/-- What the goroutines of a probe report. -/
inductive Report
  /-- `onSuccess`. -/
  | connected (transport : TransportType)
  /-- `handleUpgradeTransport`. -/
  | upgraded
  /-- `onFailure` because the dialer was closed. -/
  | dialerClosed
  /-- `onFailure` within the first minute of failures. -/
  | failed
  /-- `onFailure` after that. -/
  | unreachable
  /-- The timer of an earlier failure. -/
  | retry
  /-- `Prepare` of the ICE dialer, which makes an agent on the side of the initiator. -/
  | prepared
  /-- `Close` of the ICE dialer: half a second after it connected, or when ICE has failed. -/
  | iceClosed

/-- A report of the probe for an `AppID`. -/
def report (appId : String) (wgFails : Bool) (r : Report) (n : Node) : Node :=
  match n.probes appId with
  | none => n
  | some p =>
      let result := match r with
        | .connected t =>
            Probe.transition (match t with | .ice => .iceReady | .wrrp => .wrrpReady) wgFails
              { p with running := false, transport := some t } n.device
        | .upgraded => Probe.transition .iceReady wgFails { p with transport := some .ice } n.device
        | .dialerClosed =>
            let failed := Probe.transition .failed wgFails { p with running := false } n.device
            (failed.1.restart, failed.2)
        | .failed => Probe.transition .failed wgFails { p with running := false } n.device
        | .unreachable => Probe.transition .closed wgFails { p with running := false } n.device
        | .retry => (p.restart, n.device)
        | .prepared =>
            (if isInitiator n.localId p.remoteId then
              { p with ice := { p.ice with agent := true } }
            else p, n.device)
        | .iceClosed => ({ p with ice := { p.ice with closed := true, agent := false } }, n.device)
      { n.setProbe appId result.1 with device := result.2 }

end Node

/-! ## Runs -/

/-- What happens to a node. -/
inductive Event
  | message (answers : Node.Provisioned) (msg : Message)
  | packet (trouble : Trouble) (pk : SignalPacket)
  | report (appId : String) (wgFails : Bool) (r : Node.Report)
  | addPeer (peer : Peer)
  | removePeer (wgFails : Bool) (peer : Peer)

namespace Node

def step (n : Node) : Event → Node
  | .message answers msg => (n.handleEvent codec answers msg).2
  | .packet trouble pk => n.handle codec trouble pk
  | .report appId wgFails r => n.report appId wgFails r
  | .addPeer peer => (n.addPeer codec peer).2
  | .removePeer wgFails peer => (n.removePeer codec wgFails peer).2

def run (n : Node) (events : List Event) : Node := events.foldl (step codec) n

end Node

/-!
## Entries that are written to the device

`Node` keeps which keys the WireGuard device has an entry for. Here is what is written: with
every entry comes the list of addresses that the device accepts from the peer. Entries are written
when a probe learns about its peer (`onPeerKnown`) and when a connection gets an endpoint
(`SetEndpoint`), and `AllowedIPs` are in both cases those of the peer info that the probe took
last.
-/

/-- `AllowedIPs`, or the address alone if there are none. -/
def effectiveIPs (peer : Peer) : String :=
  if peer.allowedIPs = "" then
    match peer.address with
    | none => ""
    | some address => address ++ "/32"
  else peer.allowedIPs

/-- The addresses that go with a peer info that may not have come yet. -/
def allowedFor : Option Peer → String
  | none => ""
  | some peer => effectiveIPs peer

/-- An entry that is written, and the probe that does, by its `AppID`. -/
structure DeviceWrite where
  via : String
  key : Key
  allowedIPs : String
  deriving DecidableEq

namespace Probe

/-- What `RegisterPeer` writes for `onPeerKnown`. -/
def knownWrites (appId : String) (peer : Peer) (wgFails : Bool) (p : Probe) : List DeviceWrite :=
  if p.peerKnownDone || peer.address.isNone || p.registered || wgFails then []
  else [⟨appId, p.remoteId.publicKey, effectiveIPs peer⟩]

/-- What `SetEndpoint` writes. -/
def endpointWrites (appId : String) (wgFails : Bool) (p : Probe) : List DeviceWrite :=
  if wgFails then [] else [⟨appId, p.remoteId.publicKey, allowedFor p.remotePeer⟩]

/-- What the callback of a transition writes. -/
def transitionWrites (appId : String) (target : PeerState) (wgFails : Bool) (p : Probe) :
    List DeviceWrite :=
  if target ∉ allowedTransitions p.state then []
  else if p.state = .probing ∧ (target = .iceReady ∨ target = .wrrpReady) then
    match p.remotePeer with
    | none => []
    | some peer =>
        if peer.address.isSome ∧ p.transport.isSome then p.endpointWrites appId wgFails else []
  else if p.state = .wrrpReady ∧ target = .iceReady then
    if p.transport.isSome then p.endpointWrites appId wgFails else []
  else []

end Probe

namespace Node

/-- The state that a connection over a transport leads to. -/
def readyState : TransportType → PeerState
  | .ice => .iceReady
  | .wrrp => .wrrpReady

/-- What an event writes. -/
def writes (n : Node) : Event → List DeviceWrite
  | .packet trouble pk =>
      match n.manager.getIdentity codec pk.senderId with
      | none => []
      | some remoteIdentity =>
          let probe := n.getProbe remoteIdentity
          match probe.receives pk with
          | none => []
          | some peer => probe.knownWrites remoteIdentity.appId peer trouble.wgFails
  | .report appId wgFails r =>
      match n.probes appId with
      | none => []
      | some p =>
          match r with
          | .connected t =>
              { p with running := false, transport := some t }.transitionWrites appId
                (readyState t) wgFails
          | .upgraded => { p with transport := some .ice }.transitionWrites appId .iceReady wgFails
          | .dialerClosed | .failed | .unreachable | .retry | .prepared | .iceClosed => []
  | .message _ _ | .addPeer _ | .removePeer _ _ => []

end Node

/-!
## What a configuration push sends

`AddPeer` starts the probe of the peer. A probe that is not running begins a discovery: it
prepares its dialers, which send a handshake to the remote, with information about the node. Here
are the packets that go out while a configuration message is handled.
-/

/-- What a discovery finds: the setting `EnableWrrp`, and whether an ICE agent can be made. -/
structure Settings where
  enableWrrp : Bool := true
  agentFails : Bool := false

/-- A packet that is sent, and the `AppID` of the probe that sends it. -/
structure Sent where
  via : String
  packet : SignalPacket

namespace Node

/-- `getLocalPeer`, as it is put into a handshake. -/
def localInfo (n : Node) : PeerInfo :=
  match n.manager.peers n.localId.appId with
  | none => .absent
  | some peer =>
      match peer.address with
      | none => .decoded peer
      | some address => .decoded (withAllowedIPs peer address)

/-- The handshake of a dialer. -/
def syn (dialer : TransportType) (n : Node) : SignalPacket where
  senderId := fromKey n.localId.publicKey
  dialer := dialer
  type := .handshakeSyn
  info := n.localInfo

variable (settings : Settings)

/-- What `Prepare` of the ICE dialer sends. Only the initiator sends a handshake, with an agent,
and a closed dialer is silent. -/
def iceSends (appId : String) (p : Probe) (n : Node) : List Sent :=
  if isInitiator n.localId p.remoteId && (p.ice.agent || !settings.agentFails) && !p.ice.closed
  then [⟨appId, n.syn .ice⟩]
  else []

/-- What `Prepare` of the WRRP dialer sends: both sides send a handshake, whatever came before. -/
def wrrpSends (appId : String) (n : Node) : List Sent :=
  if settings.enableWrrp then [⟨appId, n.syn .wrrp⟩] else []

/-- What `Start` sends: nothing if the probe is running, else what `discover` does first. Dialers
repeat their handshakes every two seconds; this is the first of each. -/
def startSends (appId : String) (p : Probe) (n : Node) : List Sent :=
  if p.running then [] else n.iceSends settings appId p ++ n.wrrpSends settings appId

/-- What `AddPeer` sends. -/
def addPeerSends (peer : Peer) (n : Node) : List Sent :=
  if peer.publicKey = n.current.publicKey then []
  else
    match codec.parseKey peer.publicKey with
    | none => []
    | some key => (n.addPeer codec peer).2.startSends settings peer.appId
        (n.getProbe ⟨peer.appId, key⟩)

/-- The calls of `AddPeer` that `applyRemotePeers` makes, with the node that makes them. -/
def remoteCalls (codec : KeyCodec) : List Peer → Node → List (Node × Peer)
  | [], _ => []
  | peer :: peers, n =>
      (n, peer) ::
        match n.addPeer codec peer with
        | (.error _, _) => []
        | (.ok _, n) => n.remoteCalls codec peers

/-- The calls of `AddPeer` while a message is handled. -/
def addPeerCalls (answers : Provisioned) (msg : Message) (n : Node) :
    List (Node × Peer) :=
  (match msg.current.address, answers.applyIP with
    | some address, .ok _ => [(n, withAllowedIPs msg.current address)]
    | _, _ => []) ++
  match n.applyCurrent codec answers msg.current with
  | (.error _, _) => []
  | (.ok _, n) => n.remoteCalls codec msg.computedPeers

/-- What is sent while a message is handled. -/
def messageSends (answers : Provisioned) (msg : Message)
    (n : Node) : List Sent :=
  (n.addPeerCalls codec answers msg).flatMap fun call => call.1.addPeerSends codec settings call.2

end Node

/-!
## The two sides of a connection

Both nodes run the same code. Which of them initiates the handshakes is decided by their ids, so
that with distinct ids exactly one of them does.
-/

/-- The two sides of a connection. -/
inductive Party
  | left
  | right
  deriving DecidableEq, Repr

namespace Party

def other : Party → Party
  | .left => .right
  | .right => .left

@[simp] theorem other_other (i : Party) : i.other.other = i := by cases i <;> rfl

end Party

/-- Two nodes with distinct ids. -/
structure Pair where
  identity : Party → PeerIdentity
  distinct : fromKey (identity .left).publicKey ≠ fromKey (identity .right).publicKey

namespace Pair

/-- The side whose id is the larger one. -/
def initiates (pair : Pair) (i : Party) : Bool :=
  isInitiator (pair.identity i) (pair.identity i.other)

theorem initiates_iff (pair : Pair) (i : Party) :
    pair.initiates i ↔ (fromKey (pair.identity i.other).publicKey).toNat <
      (fromKey (pair.identity i).publicKey).toNat :=
  decide_eq_true_iff

/-- One side initiates, and the other does not. -/
theorem initiates_other_iff (pair : Pair) (i : Party) :
    pair.initiates i.other ↔ ¬pair.initiates i := by
  have hne : (fromKey (pair.identity .left).publicKey).toNat ≠
      (fromKey (pair.identity .right).publicKey).toNat := fun h =>
    pair.distinct (BitVec.eq_of_toNat_eq h)
  rw [initiates_iff, initiates_iff, Party.other_other]
  cases i <;> simp only [Party.other] <;> omega

/-- A pair whose left side initiates. -/
def leftFirst : Pair where
  identity
    | .left => ⟨"left", BitVec.ofNat 256 (2 ^ 193)⟩
    | .right => ⟨"right", BitVec.ofNat 256 (2 ^ 192)⟩
  distinct := by decide

end Pair

end Wireflow.Agent
