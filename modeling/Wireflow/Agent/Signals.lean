/-
# Packets that reach a node

Packets arrive over the NATS subject of the node and as probe frames of a relay. Either way the
bytes are decoded and handed to `ProbeFactory.Handle`; who sent them is what the packet says. A
packet of type `MESSAGE` carries a configuration message, which goes to `HandleEvent`, here with
its section of changes. The other packets are those of `Node.handle`.

Besides what `Node` has, a `Host` keeps what the control plane decides: the address of the
interface, the firewall rules, and the peers of configuration messages.
-/

import Wireflow.Agent.Node

namespace Wireflow.Agent

open Wireflow.Api (GoError)
open Wireflow.Infra

/-! ## Messages -/

/-- `DetailsInfo`, as far as it is acted upon. -/
structure DetailsInfo where
  addressChanged : Bool := false
  peersAdded : List Peer := []
  peersRemoved : List Peer := []
  networkLeft : List String := []
  totalChanges : ℤ := 0

def DetailsInfo.hasChanges (c : DetailsInfo) : Bool := 0 < c.totalChanges

/-- A configuration message as it is decoded from JSON, where anything may be missing. -/
structure PushedMessage where
  changes : Option DetailsInfo := none
  current : Option Peer := none
  computedPeers : List Peer := []
  computedRules : Option FirewallRule := none

/-- The message that the controller builds. -/
def PushedMessage.ofMessage (msg : Message) : PushedMessage where
  current := some msg.current
  computedPeers := msg.computedPeers
  computedRules := some msg.computedRules

/-- What happens while a packet is handled: what the provisioner answers, and what fails. -/
structure Conditions where
  answers : Node.Provisioned := {}
  trouble : Trouble := {}
  /-- The handler of messages has been installed. -/
  listening : Bool := true

/-! ## The host -/

structure Host where
  node : Node
  /-- The address of the interface. -/
  address : Option String := none
  /-- The firewall rules that were provisioned last. -/
  rules : Option FirewallRule := none
  /-- The peers that configuration messages have named, by `AppID`. -/
  configured : String → Option Peer := fun _ => none

variable (codec : KeyCodec) (answers : Node.Provisioned) (wgFails : Bool) (conditions : Conditions)

namespace Host

/-- `AddPeer`, called for a peer of a message. -/
def addPeer (peer : Peer) (h : Host) : Except GoError Unit × Host :=
  ((h.node.addPeer codec peer).1,
    { h with
      node := (h.node.addPeer codec peer).2
      configured := Function.update h.configured peer.appId (some peer) })

/-- `RemovePeer`, called for a peer of a message. -/
def removePeer (peer : Peer) (h : Host) : Host :=
  { h with
    node := (h.node.removePeer codec wgFails peer).2
    configured := Function.update h.configured peer.appId none }

/-- `RemoveAllPeers`. -/
def removeAllPeers (h : Host) : Host :=
  { h with node := { h.node with device := fun _ => false }, configured := fun _ => none }

/-- The section on addresses. `ApplyIP` does nothing when it is asked to remove. -/
def changeAddress (c : DetailsInfo) (current : Peer) (h : Host) : Peer × Host :=
  if c.addressChanged then
    match current.address with
    | none => (current, if c.networkLeft.isEmpty then h else h.removeAllPeers)
    | some address => ({ current with allowedIPs := address ++ "/32" }, h)
  else (current, h)

/-- Peers are added and removed without stopping at errors; the node itself is not added. -/
def changePeers (c : DetailsInfo) (current : Peer) (h : Host) :
    Host :=
  let added := c.peersAdded.foldl (fun h peer =>
    if peer.publicKey = current.publicKey then h else (h.addPeer codec peer).2) h
  c.peersRemoved.foldl (fun h peer => h.removePeer codec wgFails peer) added

/-- The first part of `HandleEvent`: the changes, if the message has any. -/
def applyChanges (changes : Option DetailsInfo)
    (current : Peer) (h : Host) : Peer × Host :=
  match changes with
  | none => (current, h)
  | some c =>
      if c.hasChanges then
        let r := h.changeAddress c current
        (r.1, r.2.changePeers codec wgFails c r.1)
      else (current, h)

/-- The first part of `ApplyFullConfig`: the address of the interface, and the node's own
peer. -/
def applyCurrent (current : Peer) (h : Host) :
    Except GoError Unit × Host :=
  match current.address with
  | none => (.ok (), h)
  | some address =>
      match answers.applyIP with
      | .error err => (.error err, h)
      | .ok _ =>
          { h with address := some address }.addPeer codec (Node.withAllowedIPs current address)

/-- `applyRemotePeers`, up to the first peer that cannot be added. -/
def applyRemotePeers (codec : KeyCodec) : List Peer → Host → Except GoError Unit × Host
  | [], h => (.ok (), h)
  | peer :: peers, h =>
      match h.addPeer codec peer with
      | (.error err, h) => (.error err, h)
      | (.ok _, h) => h.applyRemotePeers codec peers

/-- `applyFirewallRules`. -/
def applyFirewallRules (rules : Option FirewallRule) (h : Host) :
    Except GoError Unit × Host :=
  match rules with
  | none => (.ok (), h)
  | some rules =>
      match answers.provision with
      | .error err => (.error err, h)
      | .ok _ => (.ok (), { h with rules := some rules })

/-- `ApplyFullConfig`. -/
def applyFullConfig (msg : PushedMessage)
    (current : Peer) (h : Host) : Except GoError Unit × Host :=
  match h.applyCurrent codec answers current with
  | (.error err, h) => (.error err, h)
  | (.ok _, h) =>
      match h.applyRemotePeers codec msg.computedPeers with
      | (.error err, h) => (.error err, h)
      | (.ok _, h) => h.applyFirewallRules answers msg.computedRules

/-- `HandleEvent`. A message without the peer it is for is dropped. -/
def handleEvent (msg : PushedMessage) (h : Host) :
    Except GoError Unit × Host :=
  match msg.current with
  | none => (.ok (), h)
  | some current =>
      let r := h.applyChanges codec conditions.trouble.wgFails msg.changes current
      match r.2.applyFullConfig codec conditions.answers msg r.1 with
      | (.error err, h) =>
          (.error { err with text := "failed to apply full configuration: " ++ err.text }, h)
      | (.ok _, h) => (.ok (), h)

end Host

/-! ## Packets -/

/-- A packet that was decoded. -/
inductive Signal
  /-- A configuration message, if the content is the JSON of one. -/
  | message (content : Option PushedMessage)
  /-- A packet for one of the dialers. -/
  | packet (pk : SignalPacket)
  /-- A packet whose dialer is none of them. -/
  | undirected (senderId : PeerID)

/-- How a packet comes in, and what its bytes are decoded to. -/
inductive Delivery
  | nats (decoded : Option Signal)
  | relay (decoded : Option Signal)

namespace Host

/-- `ProbeFactory.Handle`. -/
def handle (codec : KeyCodec) (conditions : Conditions) (signal : Signal) (h : Host) :
    Except GoError Unit × Host :=
  match signal with
  | .message content =>
      if conditions.listening then
        match content with
        | none => (.error { text := "handle MESSAGE: unmarshal" }, h)
        | some msg => h.handleEvent codec conditions msg
      else (.ok (), h)
  | .packet pk => (.ok (), { h with node := h.node.handle codec conditions.trouble pk })
  | .undirected senderId =>
      match h.node.manager.getIdentity codec senderId with
      | none => (.ok (), h)
      | some remoteIdentity =>
          (.ok (), { h with
            node := h.node.setProbe remoteIdentity.appId (h.node.getProbe remoteIdentity) })

/-- What both transports do with a packet: bytes that cannot be decoded are dropped, and an error
of the handler is only logged. -/
def onMessage (decoded : Option Signal) (h : Host) :
    Host :=
  match decoded with
  | none => h
  | some signal => (h.handle codec conditions signal).2

/-- The subscription of the node's subject, and `probeWorker`. -/
def deliver (h : Host) : Delivery × Conditions → Host
  | (.nats decoded, conditions) => h.onMessage codec conditions decoded
  | (.relay decoded, conditions) => h.onMessage codec conditions decoded

end Host

end Wireflow.Agent
