/-
# The relay protocol

A frame is a header of twelve bytes and a payload. The header names a peer by the low half of its
64-bit id: in a `Register` frame the peer that sends it, in other frames the peer it is meant for.
-/

import Wireflow.Api.Types
import Wireflow.Go.Binary

namespace Wireflow.Relay

open Function Go.Binary
open Wireflow.Api (GoError)

def headerSize : ℕ := 12

/-! ## Commands -/

def register : UInt8 := 0x01

def forward : UInt8 := 0x02

def keepAlive : UInt8 := 0x03

def probe : UInt8 := 0x04

/-! ## Headers -/

structure Header where
  seq : UInt16
  payloadLen : UInt32
  cmd : UInt8
  toID : UInt32
  reserved : UInt8 := 0
  deriving DecidableEq, Repr

/-- `Marshal`. -/
def Header.marshal (h : Header) : List UInt8 :=
  put 2 h.seq.toNat ++ (put 4 h.payloadLen.toNat ++
    (h.cmd :: (put 4 h.toID.toNat ++ [h.reserved])))

/-- `MarshalInto`. A buffer that is too short makes it panic. -/
def Header.marshalInto (h : Header) (buf : List UInt8) : Option (List UInt8) :=
  if buf.length < headerSize then none
  else
    let buf := putAt 0 (put 2 h.seq.toNat) buf
    let buf := putAt 2 (put 4 h.payloadLen.toNat) buf
    let buf := putAt 6 [h.cmd] buf
    let buf := putAt 7 (put 4 h.toID.toNat) buf
    some (putAt 11 [h.reserved] buf)

/-- `Unmarshal`. -/
def unmarshal (data : List UInt8) : Except GoError Header :=
  if data.length < headerSize then .error { text := "lrp: header too short" }
  else
    .ok
      { seq := UInt16.ofNat (get (data.take 2))
        payloadLen := UInt32.ofNat (get ((data.drop 2).take 4))
        cmd := data.getD 6 0
        toID := UInt32.ofNat (get ((data.drop 7).take 4))
        reserved := data.getD 11 0 }

@[simp]
theorem length_marshal (h : Header) : h.marshal.length = headerSize := by
  simp [Header.marshal, headerSize]

/-- What was marshalled is read back, whatever follows. -/
@[simp]
theorem unmarshal_marshal_append (h : Header) (rest : List UInt8) :
    unmarshal (h.marshal ++ rest) = .ok h := by
  have hlong : ¬ (h.marshal ++ rest).length < headerSize := by simp
  have hseq : (h.marshal ++ rest).take 2 = put 2 h.seq.toNat := rfl
  have hlen : ((h.marshal ++ rest).drop 2).take 4 = put 4 h.payloadLen.toNat := rfl
  have hto : ((h.marshal ++ rest).drop 7).take 4 = put 4 h.toID.toNat := rfl
  rw [unmarshal, if_neg hlong, hseq, hlen, hto, ofNat_get_put_uint16,
    ofNat_get_put_uint32, ofNat_get_put_uint32]
  rfl

/-- A header alone is read back. -/
theorem unmarshal_marshal (h : Header) : unmarshal h.marshal = .ok h := by
  simpa using unmarshal_marshal_append h []

/-- What is read is what was there. -/
theorem marshal_of_unmarshal {data : List UInt8} {h : Header} (hread : unmarshal data = .ok h) :
    h.marshal = data.take headerSize := by
  unfold unmarshal at hread
  split_ifs at hread with hshort
  cases hread
  rw [headerSize, not_lt] at hshort
  rw [Header.marshal, put_ofNat_get_uint16 (by simp; omega),
    put_ofNat_get_uint32 (by simp; omega), put_ofNat_get_uint32 (by simp; omega)]
  apply List.ext_getElem?
  intro i
  rw [headerSize]
  grind

/-! ## Frames -/

/-- A well-formed frame: the header says how long the payload is. -/
structure Frame where
  header : Header
  payload : List UInt8
  length_payload : header.payloadLen.toNat = payload.length

/-- A frame as it is sent. -/
def Frame.bytes (f : Frame) : List UInt8 := f.header.marshal ++ f.payload

@[simp]
theorem Frame.length_bytes (f : Frame) : f.bytes.length = headerSize + f.payload.length := by
  simp [Frame.bytes]

/-- Frames as they are sent, one after the other. -/
def wire (frames : List Frame) : List UInt8 := frames.flatMap Frame.bytes

/-- The bytes that `register` writes. -/
def registerFrame (seq : UInt16) (localId : UInt64) : List UInt8 :=
  { seq := seq, payloadLen := 0, cmd := register, toID := localId.toUInt32 : Header }.marshal

/-- `makeFrame`. -/
def makeFrame (seq : UInt16) (toID : UInt64) (cmd : UInt8) (data : List UInt8) : List UInt8 :=
  { seq := seq, payloadLen := UInt32.ofNat data.length, cmd := cmd,
    toID := toID.toUInt32 : Header }.marshal ++ data

/-- What `makeFrame` makes of data whose length the header can say. -/
def Frame.make (seq : UInt16) (toID : UInt64) (cmd : UInt8) (data : List UInt8)
    (h : data.length < 2 ^ 32) : Frame where
  header :=
    { seq := seq, payloadLen := UInt32.ofNat data.length, cmd := cmd, toID := toID.toUInt32 }
  payload := data
  length_payload := UInt32.toNat_ofNat_of_lt h

/-!
## Sessions of the relay

The relay keeps a session for each id, and for ids that have come over QUIC the connection as well.
A connection registers once, with its first frame; its handler takes the entries of the id away
when it ends, whoever they belong to by then.
-/

/-- The transports that clients come over. -/
inductive Kind
  | tcp
  | quic
  deriving DecidableEq, Repr

variable {κ : Type}

/-- `Session`, with the connection that its stream belongs to. -/
structure Session (κ : Type) where
  id : UInt64
  stream : κ
  type : Kind

/-- `SessionManager`. -/
structure SessionManager (κ : Type) where
  sessions : UInt64 → Option (Session κ) := fun _ => none
  quicConns : UInt64 → Option κ := fun _ => none

/-- How `Relay` hands a frame to a client. -/
inductive Route (κ : Type)
  /-- `SendDatagram`. -/
  | datagram (conn : κ)
  /-- `Write` to the stream of the session. -/
  | stream (conn : κ)
  deriving DecidableEq, Repr

/-- The connection that a frame goes to. -/
def Route.conn : Route κ → κ
  | .datagram conn | .stream conn => conn

namespace SessionManager

/-- `Register`. -/
def register (id : UInt64) (s : Session κ) (m : SessionManager κ) : SessionManager κ :=
  { m with sessions := update m.sessions id (some s) }

/-- `Unregister`. -/
def unregister (id : UInt64) (m : SessionManager κ) : SessionManager κ :=
  { sessions := update m.sessions id none
    quicConns := update m.quicConns id none }

/-- `RegisterQUIC`. -/
def registerQUIC (id : UInt64) (conn : κ) (m : SessionManager κ) : SessionManager κ :=
  { sessions := update m.sessions id (some ⟨id, conn, .quic⟩)
    quicConns := update m.quicConns id (some conn) }

/-- `Relay`, up to the write. -/
def relay (toID : UInt64) (m : SessionManager κ) : Except GoError (Route κ) :=
  match m.quicConns toID, m.sessions toID with
  | some conn, _ => .ok (.datagram conn)
  | none, some session => .ok (.stream session.stream)
  | none, none => .error { text := "lrp: relay target not found" }

/-- The registration of a connection, by the handler of its transport. -/
def registerConn (kind : Kind) (id : UInt64) (conn : κ) (m : SessionManager κ) :
    SessionManager κ :=
  match kind with
  | .tcp => m.register id ⟨id, conn, .tcp⟩
  | .quic => m.registerQUIC id conn

end SessionManager

/-! ### Connections that come and go -/

/-- The relay with its connections. -/
structure Hub (κ : Type) where
  manager : SessionManager κ := {}
  /-- The connections whose handlers have registered them, with the id they have registered. -/
  handlers : κ → Option UInt64 := fun _ => none
  /-- Those that are open, the last registration first. -/
  opened : List κ := []

inductive Event (κ : Type)
  /-- The handler of a new connection reads its `Register` frame. -/
  | registered (kind : Kind) (conn : κ) (id : UInt64)
  /-- The client goes away. -/
  | dropped (conn : κ)
  /-- The handler notices, or gives the connection up: `Unregister`, and it closes. -/
  | ended (conn : κ)

namespace Hub

variable [DecidableEq κ]

def step (r : Hub κ) : Event κ → Hub κ
  | .registered kind conn id =>
      if (r.handlers conn).isSome then r
      else
        { manager := r.manager.registerConn kind id conn
          handlers := update r.handlers conn (some id)
          opened := conn :: r.opened }
  | .dropped conn => { r with opened := r.opened.filter (· ≠ conn) }
  | .ended conn =>
      match r.handlers conn with
      | none => r
      | some id =>
          { manager := r.manager.unregister id
            handlers := update r.handlers conn none
            opened := r.opened.filter (· ≠ conn) }

def run (r : Hub κ) (events : List (Event κ)) : Hub κ := events.foldl step r

/-- The open connection that a frame for an id is written to, if `Relay` does not fail. A write to
a connection that is not open fails. -/
def reached (r : Hub κ) (id : UInt64) : Option κ :=
  match r.manager.relay id with
  | .ok route => if route.conn ∈ r.opened then some route.conn else none
  | .error _ => none

end Hub

end Wireflow.Relay
