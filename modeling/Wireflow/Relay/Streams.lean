/-
# Frames on a TCP stream

The two readers of frames: the session of a client at the relay, `handleBoltSession`, and
`ReceiveFunc` of the client. Both read a header, look at its command and length, and then the
payload. They differ in what they do with payloads they have no use for, and in what an expiry of
the read deadline means: at the relay no later read can succeed, since only a frame moves the
deadline on, while the client sets a new deadline with every call.

The stream may be anything that can be read from; `read` stands for `io.ReadFull`.
-/

import Wireflow.Go.Reader
import Wireflow.Relay.Protocol

namespace Wireflow.Relay

open Go.Reader (ReadError)
open Wireflow.Api (GoError)

/-- `io.ReadFull` for some kind of stream. -/
abbrev Read (σ : Type) := ℕ → σ → Except ReadError (List UInt8) × σ

section

variable {σ : Type}

/-! ## The relay -/

/-- `handleBoltSession` between two headers. -/
structure BoltSession (σ : Type) where
  stream : σ
  /-- A read has failed: the deadline is over or the client is gone, and that does not change. -/
  failure : Option ReadError := none
  /-- The id of the `Register` frame. -/
  fromId : Option UInt64 := none
  /-- The handler has not returned. -/
  running : Bool := true
  /-- The calls of `Relay`: the id and the frame. -/
  relayed : List (UInt64 × List UInt8) := []

namespace BoltSession

variable (read : Read σ)

/-- `io.ReadFull` on the connection of the session. -/
def readFull (n : ℕ) (s : BoltSession σ) : Except ReadError (List UInt8) × BoltSession σ :=
  match s.failure with
  | some err => (.error err, s)
  | none =>
      match read n s.stream with
      | (.ok bytes, stream) => (.ok bytes, { s with stream := stream })
      | (.error err, stream) => (.error err, { s with stream := stream, failure := some err })

/-- The frame before the loop, which must be a registration. -/
def readRegister (s : BoltSession σ) : BoltSession σ :=
  match s.readFull read headerSize with
  | (.error _, s) => { s with running := false }
  | (.ok headBuf, s) =>
      match unmarshal headBuf with
      | .error _ => { s with running := false }
      | .ok header =>
          if header.cmd = register then { s with fromId := some header.toID.toUInt64 }
          else { s with running := false }

/-- The payload of a frame that is relayed. If it cannot be read, the loop goes on. -/
def relayFrame (headBuf : List UInt8) (h : Header) (s : BoltSession σ) : BoltSession σ :=
  if 0 < h.payloadLen then
    match s.readFull read h.payloadLen.toNat with
    | (.error _, s) => s
    | (.ok payload, s) =>
        { s with relayed := s.relayed ++ [(h.toID.toUInt64, headBuf ++ payload)] }
  else { s with relayed := s.relayed ++ [(h.toID.toUInt64, headBuf)] }

/-- One round of the loop. -/
def round (s : BoltSession σ) : BoltSession σ :=
  match s.readFull read headerSize with
  | (.error _, s) => { s with running := false }
  | (.ok headBuf, s) =>
      match unmarshal headBuf with
      | .error _ => s
      | .ok h =>
          -- a new deadline, which is all that happens
          if h.cmd = keepAlive then s
          else if h.cmd = forward ∨ h.cmd = probe then s.relayFrame read headBuf h
          else s

/-- What the handler does next. -/
def step (s : BoltSession σ) : BoltSession σ :=
  if s.running then
    match s.fromId with
    | none => s.readRegister read
    | some _ => s.round read
  else s

end BoltSession

/-! ## The client -/

def maxProbePayload : ℕ := 2048

/-- What `ReceiveFunc` hands on. -/
inductive Received
  /-- A packet for WireGuard, with the `RemoteId` of its endpoint. -/
  | packet (data : List UInt8) (remoteId : UInt64)
  /-- A task for the worker that handles probes. -/
  | task (sessionID : UInt64) (data : List UInt8)
  deriving DecidableEq, Repr

/-- The error of a call. -/
inductive ReceiveError
  | read (err : ReadError)
  | header (err : GoError)

/-- The client between two calls of `ReceiveFunc`. -/
structure Receiver (σ : Type) where
  stream : σ
  /-- A read has come to the end of the connection. -/
  ended : Bool := false
  received : List Received := []

namespace Receiver

variable (read : Read σ)

/-- `io.ReadFull`, under the deadline of the call. -/
def readFull (n : ℕ) (c : Receiver σ) : Except ReadError (List UInt8) × Receiver σ :=
  match read n c.stream with
  | (.error .eof, stream) => (.error .eof, { c with stream := stream, ended := true })
  | (result, stream) => (result, { c with stream := stream })

/-- The payload of a frame, unless it is longer than there is room for. -/
def readPayload (room : ℕ) (h : Header) (count : ℕ) (result : List UInt8 → Received)
    (c : Receiver σ) : Except ReceiveError ℕ × Receiver σ :=
  if room < h.payloadLen.toNat then (.ok 0, c)
  else
    match c.readFull read h.payloadLen.toNat with
    | (.error err, c) => (.error (.read err), c)
    | (.ok data, c) => (.ok count, { c with received := c.received ++ [result data] })

/-- `ReceiveFunc`, with a buffer of some size: the number of packets, and the client after it. A
task that finds the channel of the worker full counts as handed on. -/
def receive (buffer : ℕ) (c : Receiver σ) : Except ReceiveError ℕ × Receiver σ :=
  match c.readFull read headerSize with
  | (.error .timeout, c) => (.ok 0, c)
  | (.error .eof, c) => (.error (.read .eof), c)
  | (.ok headBuf, c) =>
      match unmarshal headBuf with
      | .error err => (.error (.header err), c)
      | .ok header =>
          if header.cmd = probe then
            c.readPayload read maxProbePayload header 0 fun data =>
              .task header.toID.toUInt64 data
          else if header.cmd = forward then
            c.readPayload read buffer header 1 fun data => .packet data header.toID.toUInt64
          else
            -- `io.CopyN` to nowhere, whose error is ignored
            (.ok 0, (c.readFull read header.payloadLen.toNat).2)

end Receiver

end

/-!
## From one client to another

Clients register at the relay with their ids and send frames to each other's ids. A frame goes
through the relay as it is; the client that gets it reports the id in its header as the endpoint it
came from, and replies go to that id.
-/

/-- A client, with its `PeerID`. -/
structure Client where
  id : UInt64
  kind : Kind
  deriving DecidableEq, Repr

/-- The id of a client as a header says it: the low half. -/
def low (id : UInt64) : UInt64 := id.toUInt32.toUInt64

/-! ### Registration -/

/-- The relay reads the `Register` frame of a client. Connections have the names of their
clients. -/
def SessionManager.connect (m : SessionManager UInt64) (c : Client) : SessionManager UInt64 :=
  match unmarshal (registerFrame 1 c.id) with
  | .error _ => m
  | .ok h => if h.cmd = Relay.register then m.registerConn c.kind h.toID.toUInt64 c.id else m

/-- The relay after a number of clients have registered, one after the other. -/
def connected (clients : List Client) : SessionManager UInt64 :=
  clients.foldl SessionManager.connect {}

/-! ### The relay -/

/-- `relayDatagrams`, for one datagram: the calls of `Relay`. -/
def relayDatagram (data : List UInt8) : List (UInt64 × List UInt8) :=
  if data.length < headerSize then []
  else
    match unmarshal (data.take headerSize) with
    | .error _ => []
    | .ok h =>
        if h.cmd ≠ forward ∧ h.cmd ≠ probe then [] else [(h.toID.toUInt64, data)]

/-- The calls of `Relay` for what a registered client sends: one datagram, or bytes on its
connection after the registration. -/
def Client.relayed (c : Client) (frame : List UInt8) : List (UInt64 × List UInt8) :=
  match c.kind with
  | .quic => relayDatagram frame
  | .tcp =>
      (((BoltSession.step Go.Reader.readFull)^[2]
        { stream := [.data (registerFrame 1 c.id ++ frame)] }).relayed)

/-- The clients that get something when a client sends a frame, with what they get. -/
def deliveries (m : SessionManager UInt64) (c : Client) (frame : List UInt8) :
    List (UInt64 × List UInt8) :=
  (c.relayed frame).filterMap fun call =>
    match m.relay call.1 with
    | .ok route => some (route.conn, call.2)
    | .error _ => none

/-! ### Reception -/

/-- `ReceiveFunc` of the QUIC client, for one datagram. -/
def receiveDatagram (buffer : ℕ) (data : List UInt8) : List Received :=
  if data.length < headerSize then []
  else
    match unmarshal (data.take headerSize) with
    | .error _ => []
    | .ok h =>
        let payload := data.drop headerSize
        if h.cmd = forward then
          if buffer < payload.length then [] else [.packet payload h.toID.toUInt64]
        else if h.cmd = probe then [.task h.toID.toUInt64 payload]
        else []

/-- What a client hands on of a frame that it gets. -/
def Client.receives (c : Client) (buffer : ℕ) (frame : List UInt8) : List Received :=
  match c.kind with
  | .quic => receiveDatagram buffer frame
  | .tcp =>
      (Receiver.receive Go.Reader.readFull buffer { stream := [.data frame] }).2.received

end Wireflow.Relay
