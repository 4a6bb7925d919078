/-
# Two relayed dialers

`wrrpDialer` on both sides of a connection. Handshakes and their acknowledgements go over NATS,
offers and answers over the relay; all of them carry what the sender knows of itself at that time.

NATS and the relay call `Handle` in goroutines of their own, so several handlers of one dialer may
be at work. Each is a *stage* that says what it does next, and a dialer has any number of them. When
the goroutine of `Prepare` sends another handshake is left open, and so is whether a packet that was
sent arrives, so a call that fails to send is one whose packet is lost.

A dialer that takes a handshake for a restart of the other side goes on here, although its probe
makes a new one then: nothing keeps packets from reaching the old one before that.
-/

import Wireflow.Agent.Node
import Wireflow.Semantics.Network

namespace Wireflow.Agent

open Semantics

namespace WrrpPair

variable {I : Type}

/-- `SignalPacket`, with what it says of its sender. -/
structure Packet (I : Type) where
  type : PacketType
  info : I
  deriving DecidableEq

/-- What carries a packet. -/
inductive Channel
  | nats
  | relay
  deriving DecidableEq, Repr

def Packet.channel (pk : Packet I) : Channel :=
  match pk.type with
  | .offer | .answer => .relay
  | .handshakeSyn | .handshakeAck | .unknown => .nats

/-- What a call of `Handle` does next. -/
inductive Stage (I : Type)
  /-- `onPeerReceived`. -/
  | receives (pk : Packet I)
  /-- A handshake looks at `active`, and resets it. -/
  | checks
  /-- The acknowledgement is sent. -/
  | acknowledges
  /-- The offer is sent. -/
  | offers
  /-- `active` is set by an offer, which is to be answered, or by an answer. -/
  | activates (answers : Bool)
  /-- `readyChan` is closed. -/
  | readies (answers : Bool)
  /-- The answer is sent. -/
  | answers

/-- `wrrpDialer`, with what its callbacks are told and the handlers at work. -/
structure Dialer (I : Type) extends WrrpDialer where
  /-- What the node knows of itself. -/
  own : I
  /-- What it knew before. -/
  past : List I := []
  /-- `readyChan` is closed. -/
  ready : Bool := false
  /-- The calls of `onPeerReceived`. -/
  received : List I := []
  /-- The number of calls of `onRestart`. -/
  restarts : ℕ := 0
  /-- An offer or an answer has set `active`. -/
  activated : Bool := false
  handlers : List (Stage I) := []

/-- What happens to a dialer. -/
inductive Act (I : Type)
  /-- The goroutine of `Prepare` sends a handshake. -/
  | handshake
  /-- A handler goes on. -/
  | proceed (k : ℕ)
  /-- The node gets another configuration. -/
  | configure (own : I)

/-- What `Handle` does after `onPeerReceived`. -/
def Packet.next (initiator : Bool) (pk : Packet I) : Option (Stage I) :=
  match pk.type with
  | .handshakeSyn => some .checks
  | .handshakeAck => if initiator then some .offers else none
  | .offer => some (.activates true)
  | .answer => some (.activates false)
  | .unknown => none

namespace Dialer

/-- What a handler does to the dialer. -/
def perform (w : Dialer I) : Stage I → Dialer I
  | .receives pk => { w with received := pk.info :: w.received }
  | .checks => { w with active := false, restarts := w.restarts + w.active.toNat }
  | .activates _ => { w with active := true, activated := true }
  | .readies _ => { w with ready := true }
  | .acknowledges | .offers | .answers => w

/-- What it sends. -/
def sends (w : Dialer I) : Stage I → List (Packet I)
  | .acknowledges => [⟨.handshakeAck, w.own⟩]
  | .offers => [⟨.offer, w.own⟩]
  | .answers => [⟨.answer, w.own⟩]
  | .receives _ | .checks | .activates _ | .readies _ => []

/-- How it goes on. -/
def next (initiator : Bool) (w : Dialer I) : Stage I → Option (Stage I)
  | .receives pk => pk.next initiator
  | .checks => if w.active then none else some .acknowledges
  | .activates answers => some (.readies answers)
  | .readies answers => if answers then some .answers else none
  | .acknowledges | .offers | .answers => none

def act (initiator : Bool) (a : Act I) (w : Dialer I) : Dialer I × List (Packet I) :=
  match a with
  | .handshake => (w, [⟨.handshakeSyn, w.own⟩])
  | .configure own => ({ w with own := own, past := w.own :: w.past }, [])
  | .proceed k =>
      match w.handlers[k]? with
      | none => (w, [])
      | some stage =>
          ({ w.perform stage with
              handlers := w.handlers.eraseIdx k ++ (w.next initiator stage).toList },
            w.sends stage)

/-- `Handle` is called. -/
def handle (pk : Packet I) (w : Dialer I) : Dialer I :=
  match pk.type with
  | .unknown => w
  | .handshakeSyn | .handshakeAck | .offer | .answer =>
      { w with handlers := w.handlers ++ [.receives pk] }

end Dialer

/-- A dialer sends to the other side only. -/
def react (pair : Pair) : Reaction Party (Packet I) Unit (Act I) (Dialer I) := fun i x w =>
  match x with
  | .packet e _ => (w.handle e.packet, [])
  | .act a =>
      ((w.act (pair.initiates i) a).1, (w.act (pair.initiates i) a).2.map fun pk => (i.other, pk))

abbrev State (I : Type) := Net Party (Packet I) Unit (Dialer I)

/-- Fresh dialers. -/
def initial (own : Party → I) : State I := { party := fun i => { own := own i } }

end WrrpPair

end Wireflow.Agent
