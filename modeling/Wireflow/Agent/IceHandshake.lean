/-
# Two ICE dialers

`iceDialer` on both sides of a connection. All their packets go over NATS, whose subscription calls
`Handle` for one packet after the other. Only the initiator sends handshakes: at once when it
prepares, and again whenever its ticker fires, until it sees an acknowledgement or a minute is over.

When the ticker fires, when an agent has a candidate, and when a dialer is closed for another reason
than a handshake, is left open.
-/

import Wireflow.Agent.Lifecycle
import Wireflow.Semantics.Network

namespace Wireflow.Agent.IcePair

open Semantics

/-- `iceDialer`, with its goroutines. -/
structure Dialer extends IceDialer where
  /-- The goroutine of `Prepare` sends handshakes. -/
  sending : Bool := false
  /-- The agent gathers candidates. -/
  gathering : Bool := false
  /-- `offerReady` is closed. -/
  offerReady : Bool := false
  /-- The number of handshakes that have closed the dialer. -/
  resets : ℕ := 0

/-- What happens to a dialer besides packets. -/
inductive Act
  /-- `Prepare`, which may fail to make an agent. -/
  | prepare (fails : Bool)
  /-- The ticker of `Prepare` fires. -/
  | tick
  /-- A minute is over. -/
  | expire
  /-- `OnCandidate`. -/
  | candidate
  /-- `Close`, half a second after a connection, when ICE has failed, or with the probe. -/
  | close
  deriving DecidableEq, Repr

namespace Dialer

/-- `sendPacket`, which sends nothing once the dialer is closed. -/
def sendPacket (type : PacketType) (d : Dialer) : List PacketType :=
  if d.closed then [] else [type]

/-- `Handle`. An offer that finds no agent does nothing here; what it really does is in
`Handling`. -/
def handle (trouble : Trouble) (type : PacketType) (d : Dialer) : Dialer × List PacketType :=
  match type with
  | .handshakeSyn =>
      if d.closed then (d, [])
      else if d.agent then
        ({ d with toIceDialer := d.toIceDialer.close, resets := d.resets + 1 }, [])
      else if trouble.sendFails then (d, [])
      else
        ({ d with agent := !trouble.agentFails, gathering := !trouble.agentFails },
          d.sendPacket .handshakeAck)
  | .handshakeAck =>
      if d.closed || !d.agent then (d, []) else ({ d with sending := false, gathering := true }, [])
  | .offer | .answer => (if d.agent then { d with offerReady := true } else d, [])
  | .unknown => (d, [])

def act (initiator : Bool) (a : Act) (d : Dialer) : Dialer × List PacketType :=
  match a with
  | .prepare fails =>
      if initiator then
        if fails && !d.agent then (d, [])
        else ({ d with agent := true, sending := true }, d.sendPacket .handshakeSyn)
      else (d, [])
  | .tick => (d, if d.sending then d.sendPacket .handshakeSyn else [])
  | .expire => ({ d with sending := false }, [])
  | .candidate => (d, if d.gathering then d.sendPacket .offer else [])
  | .close => ({ d with toIceDialer := d.toIceDialer.close }, [])

end Dialer

/-- A dialer sends to the other side only. -/
def react (pair : Pair) : Reaction Party PacketType Trouble Act Dialer := fun i x d =>
  match x with
  | .packet e trouble =>
      ((d.handle trouble e.packet).1, (d.handle trouble e.packet).2.map fun type => (i.other, type))
  | .act a =>
      ((d.act (pair.initiates i) a).1,
        (d.act (pair.initiates i) a).2.map fun type => (i.other, type))

abbrev State := Net Party PacketType Trouble Dialer

/-- Fresh dialers. -/
def initial : State := { party := fun _ => {} }

end Wireflow.Agent.IcePair
