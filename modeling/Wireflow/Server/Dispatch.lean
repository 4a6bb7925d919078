/-
# Dispatch of configurations

The client of `resource/client.go` watches configuration maps and sends what is in them to the
node they are for. The hash of what was sent last is kept by `AppID`, and the same message is not
sent again; packets are addressed by the `PeerID` of the public key.

Of a message only the peer it is for is looked at, so messages are of any type. What has been sent
is kept, the latest first; the code does not look at it.
-/

import Wireflow.Agent.Node

namespace Wireflow.Server

open Wireflow.Agent (KeyCodec Key PeerID fromKey)
open Wireflow.Api

/-- Messages in JSON, and the field `Current`. -/
structure MessageCodec (M : Type) extends KeyCodec where
  unmarshal : String → Option M
  marshal : M → String
  current : M → Option Infra.Peer

/-- A message that was sent, and to whom. -/
structure Dispatched (M : Type) where
  peerID : PeerID
  appId : String
  message : M

/-- `Client`, with what its sender has sent. -/
structure Dispatcher (M : Type) where
  lastPushedHash : String → Option String := fun _ => none
  sent : List (Dispatched M) := []

/-- A change of a configuration map, and what `Send` answers if it is called. -/
structure Notice where
  eventType : String
  configMap : ConfigMap
  answer : Except GoError Unit

variable {M : Type} (codec : MessageCodec M)

/-- `computeMessageHash` of the client, over the whole message. -/
def MessageCodec.hash (message : M) : String :=
  Go.Sha256.hexDigest (codec.marshal message).toList

namespace Dispatcher

/-- The client after a message was sent. -/
def afterSend (pubKey : Key) (peer : Infra.Peer) (msg : M) (c : Dispatcher M) : Dispatcher M where
  lastPushedHash := Function.update c.lastPushedHash peer.appId (some (codec.hash msg))
  sent := ⟨fromKey pubKey, peer.appId, msg⟩ :: c.sent

/-- `pushToNode`. -/
def pushToNode (answer : Except GoError Unit) (peer : Infra.Peer) (msg : M) (c : Dispatcher M) :
    Except GoError Unit × Dispatcher M :=
  if c.lastPushedHash peer.appId = some (codec.hash msg) then (.ok (), c)
  else
    match codec.parseKey peer.publicKey with
    | none => (.error { text := "invalid public key for peer " ++ peer.appId }, c)
    | some pubKey =>
        match answer with
        | .error err =>
            (.error { text :=
              "failed to send message to node " ++ peer.appId ++ ": " ++ err.text }, c)
        | .ok _ => (.ok (), c.afterSend codec pubKey peer msg)

/-- The message of a notice and the peer it is for, if there are both. -/
def target (e : Notice) : Option (Infra.Peer × M) :=
  (codec.unmarshal (e.configMap.data.lookup "config.json" |>.getD "")).bind fun message =>
    (codec.current message).map fun peer => (peer, message)

/-- `handleConfigMapEvent`; additions, updates and deletions are handled alike. -/
def handleConfigMapEvent (c : Dispatcher M) (e : Notice) : Dispatcher M :=
  match target codec e with
  | none => c
  | some (peer, message) => (c.pushToNode codec e.answer peer message).2

end Dispatcher

end Wireflow.Server
