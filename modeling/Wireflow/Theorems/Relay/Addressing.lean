/-
# Addresses at the relay

A frame should reach the client it is sent to and no other one, and that client should learn whom
it came from, so that a reply goes back. But a header has room for one id, and only for half of it:
the relay tells clients apart by the low halves of their ids, and the id in the header that the
receiver takes for the sender is its own.

So no client can answer another one (`addressed_iff`).
-/

import Mathlib.Data.List.Induction
import Wireflow.Theorems.Relay.Framing
import Wireflow.Theorems.Relay.SessionTable

namespace Wireflow.Relay

open Go.Reader List

/-! ## The codec -/

/-- **The codec of headers.** What is marshalled is read back and what is read is what was there;
only short inputs fail; a buffer is overwritten where the header goes; and a frame says how many
bytes follow. -/
theorem header_codec :
    (∀ h : Header, unmarshal h.marshal = .ok h) ∧
    (∀ data, headerSize ≤ data.length →
      ∃ h, unmarshal data = .ok h ∧ h.marshal = data.take headerSize) ∧
    (∀ data, data.length < headerSize → ∃ err, unmarshal data = .error err) ∧
    (∀ (h : Header) buf, headerSize ≤ buf.length →
      h.marshalInto buf = some (h.marshal ++ buf.drop headerSize)) ∧
    ∀ seq toID cmd data, data.length < 2 ^ 32 →
      ∃ h, unmarshal (makeFrame seq toID cmd data) = .ok h ∧ h.payloadLen.toNat =
        ((makeFrame seq toID cmd data).drop headerSize).length := by
  refine ⟨unmarshal_marshal, fun data hlong => ?_, fun data hshort => ?_, fun h buf hlong => ?_,
    fun seq toID cmd data hdata => ?_⟩
  · have hread : unmarshal data = .ok _ := if_neg hlong.not_gt
    exact ⟨_, hread, marshal_of_unmarshal hread⟩
  · exact ⟨_, if_pos hshort⟩
  · have hrest : ((((buf.drop 2).drop 4).drop 1).drop 4).drop 1 = buf.drop headerSize := by
      simp [headerSize]
    rw [Header.marshalInto, if_neg hlong.not_gt, ← hrest]
    rfl
  · refine ⟨_, unmarshal_marshal_append _ data, ?_⟩
    rw [makeFrame, drop_left' (length_marshal _)]
    exact UInt32.toNat_ofNat_of_lt' hdata

/-! ## The notions -/

/-- A frame from one client to another arrives, is reported as coming from the first one, and a
reply to the endpoint that was reported arrives as well. -/
structure Addressed (clients : List Client) (a b : Client) (buffer : ℕ) (seq : UInt16)
    (data : List UInt8) : Prop where
  delivered : deliveries (connected clients) a (makeFrame seq b.id forward data) =
    [(b.id, makeFrame seq b.id forward data)]
  reported : b.receives buffer (makeFrame seq b.id forward data) = [.packet data a.id]
  answered : deliveries (connected clients) b (makeFrame seq a.id forward data) =
    [(a.id, makeFrame seq a.id forward data)]

/-- The client that the relay has for the low half of an id: the last one that has come over QUIC,
or else the last one. -/
def holder (clients : List Client) (key : UInt64) : Option Client :=
  (clients.reverse.find? fun c => low c.id = key ∧ c.kind = .quic).or
    (clients.reverse.find? fun c => low c.id = key)

/-! ## The table -/

section

variable {clients : List Client} {a b c : Client} {key : UInt64} {seq : UInt16}
  {data : List UInt8} {buffer : ℕ}

theorem connected_append_singleton (clients : List Client) (c : Client) :
    connected (clients ++ [c]) = (connected clients).registerConn c.kind (low c.id) c.id := by
  rw [connected, foldl_append, foldl_cons, foldl_nil,
    SessionManager.connect, registerFrame, unmarshal_marshal]
  rfl

theorem quicConns_connected (clients : List Client) (key : UInt64) :
    (connected clients).quicConns key =
      (clients.reverse.find? fun c => low c.id = key ∧ c.kind = .quic).map Client.id := by
  induction clients using reverseRecOn with
  | nil => rfl
  | append_singleton clients c ih =>
    rw [connected_append_singleton, Hub.quicConns_registerConn, reverse_append,
      reverse_singleton, singleton_append, find?_cons, ih]
    by_cases h : low c.id = key ∧ c.kind = .quic
    · simp [h.1, h.2]
    · simp only [h, decide_false]
      rw [if_neg fun h' => h ⟨h'.1.symm, h'.2⟩]

theorem sessions_connected (clients : List Client) (key : UInt64) :
    ((connected clients).sessions key).map Session.stream =
      (clients.reverse.find? fun c => low c.id = key).map Client.id := by
  induction clients using reverseRecOn with
  | nil => rfl
  | append_singleton clients c ih =>
    rw [connected_append_singleton, Hub.sessions_registerConn, reverse_append,
      reverse_singleton, singleton_append, find?_cons]
    by_cases h : low c.id = key
    · simp [h]
    · simp only [h, decide_false]
      rw [if_neg fun h' => h h'.symm, ih]

/-- The relay finds the holder of the low half. -/
theorem relay_connected (clients : List Client) (key : UInt64) :
    ((connected clients).relay key).toOption.map Route.conn =
      (holder clients key).map Client.id := by
  have hquic := quicConns_connected clients key
  have hsession := sessions_connected clients key
  unfold SessionManager.relay holder
  cases hq : clients.reverse.find? fun c => low c.id = key ∧ c.kind = .quic with
  | some c =>
    rw [hq] at hquic
    rw [hquic]
    rfl
  | none =>
    rw [hq] at hquic
    rw [hquic, Option.map_none, Option.none_or, ← hsession]
    cases (connected clients).sessions key <;> rfl

/-! ## The way of a frame -/

theorem toNat_low (id : UInt64) : (low id).toNat = id.toNat % 2 ^ 32 := by
  simp [low]

theorem low_low (id : UInt64) : low (low id) = low id := by
  apply UInt64.toNat_inj.mp
  rw [toNat_low, toNat_low, Nat.mod_mod]

theorem low_eq_self_iff (id : UInt64) : low id = id ↔ id.toNat < 2 ^ 32 := by
  rw [← UInt64.toNat_inj, toNat_low]
  constructor
  · intro h
    rw [← h]
    exact Nat.mod_lt _ (by decide)
  · exact Nat.mod_eq_of_lt

theorem take_makeFrame :
    (makeFrame seq key forward data).take headerSize =
      { seq := seq, payloadLen := UInt32.ofNat data.length, cmd := forward,
        toID := key.toUInt32 : Header }.marshal := by
  rw [makeFrame, take_left' (length_marshal _)]

theorem length_makeFrame : ¬ (makeFrame seq key forward data).length < headerSize := by
  simp [makeFrame]

/-- The relay calls `Relay` once, with the low half of the id. -/
theorem relayed_makeFrame (a : Client) (h : data.length < 2 ^ 32) :
    a.relayed (makeFrame seq key forward data) = [(low key, makeFrame seq key forward data)] := by
  unfold Client.relayed
  cases a.kind with
  | quic =>
    rw [relayDatagram, if_neg length_makeFrame, take_makeFrame, unmarshal_marshal]
    rfl
  | tcp =>
    -- on the connection, the frame comes after the registration
    let hello : Frame := Frame.make 1 a.id register [] (by decide)
    let f : Frame := Frame.make seq key forward data h
    let start : BoltSession (List Arrival) :=
      { stream := [.data (registerFrame 1 a.id ++ makeFrame seq key forward data)] }
    have hstart : items start.stream =
        hello.header.marshal.map some ++ (f.bytes.map some ++ []) := rfl
    obtain ⟨t, ht, hread⟩ := BoltSession.readRegister_header rfl hstart
    have hregister : start.step readFull =
        { start with stream := t, fromId := some hello.header.toID.toUInt64 } :=
      hread.trans (if_pos rfl)
    obtain ⟨t', hround, -⟩ := BoltSession.round_whole
      (s := { start with stream := t, fromId := some _ }) rfl ht (.inl rfl)
    have htwice : (BoltSession.step readFull)^[2] start =
      (start.step readFull).step readFull := rfl
    rw [htwice, hregister, BoltSession.step_eq_round rfl (Option.some_ne_none _), hround]
    rfl

theorem receives_makeFrame (b : Client) (h : data.length < 2 ^ 32) :
    b.receives buffer (makeFrame seq key forward data) =
      if buffer < data.length then [] else [.packet data (low key)] := by
  unfold Client.receives
  cases b.kind with
  | quic =>
    rw [receiveDatagram, if_neg length_makeFrame, take_makeFrame, unmarshal_marshal]
    rfl
  | tcp =>
    let f : Frame := Frame.make seq key forward data h
    let start : Receiver (List Arrival) :=
      { stream := [.data (makeFrame seq key forward data)] }
    have hstart : items start.stream = f.bytes.map some ++ [] := rfl
    by_cases hlarge : buffer < data.length
    · rw [if_pos hlarge]
      obtain ⟨s, hcall, -⟩ := Receiver.next_tooLarge hstart (.inr ⟨rfl, hlarge⟩)
      exact congrArg Receiver.received hcall
    · have hne : forward ≠ probe := by decide
      rw [if_neg hlarge]
      have hsmall : ¬ f.TooLarge buffer := by
        rintro (⟨hcmd, -⟩ | ⟨-, hlen⟩)
        · exact hne hcmd
        · exact hlarge hlen
      obtain ⟨s, hcall, -⟩ := Receiver.next_whole hstart hsmall
      refine (congrArg Receiver.received hcall).trans ?_
      have hpacket : f.received buffer = some (.packet data (low key)) := by
        have hcmd : f.header.cmd = forward := rfl
        have hlen : ¬ buffer < f.payload.length := hlarge
        rw [Frame.received, hcmd, if_neg hne, if_pos rfl, if_neg hlen]
        rfl
      rw [hpacket]
      rfl

/-! ## The theorem -/

theorem deliveries_makeFrame (a : Client) (h : data.length < 2 ^ 32) :
    deliveries (connected clients) a (makeFrame seq key forward data) =
      ((holder clients (low key)).map fun c => (c.id, makeFrame seq key forward data)).toList := by
  have hholder := relay_connected clients (low key)
  rw [deliveries, relayed_makeFrame a h]
  cases hrelay : (connected clients).relay (low key) with
  | error err =>
    rw [hrelay] at hholder
    have hnone : holder clients (low key) = none := Option.map_eq_none_iff.mp hholder.symm
    simp [hrelay, hnone]
  | ok route =>
    rw [hrelay] at hholder
    obtain ⟨c, hc, hid⟩ := Option.map_eq_some_iff.mp hholder.symm
    simp [hrelay, hc, hid]

/-- A frame is delivered to the holder of the low half of the id, and to no other client. -/
theorem delivered_iff (a : Client) (h : data.length < 2 ^ 32) {id : UInt64} :
    deliveries (connected clients) a (makeFrame seq key forward data) =
        [(id, makeFrame seq key forward data)] ↔
      ∃ c, holder clients (low key) = some c ∧ c.id = id := by
  rw [deliveries_makeFrame a h]
  cases holder clients (low key) <;> simp

theorem mem_of_holder (h : holder clients key = some c) : c ∈ clients := by
  unfold holder at h
  rw [Option.or_eq_some_iff] at h
  rcases h with h | ⟨-, h⟩ <;> exact mem_reverse.mp (mem_of_find?_eq_some h)

end

/-- **Addressing at the relay.** Among clients with different ids, a frame is delivered to the
client it is sent to, reported as coming from the client that has sent it, and answered to that
client, if and only if the two are the same client, whose id fits into a header, which the relay has
in its table, and which has room for the data. -/
theorem addressed_iff (clients : List Client) (a b : Client) (buffer : ℕ) (seq : UInt16)
    (data : List UInt8) (hids : (clients.map Client.id).Nodup) (ha : a ∈ clients)
    (hb : b ∈ clients) (hdata : data.length < 2 ^ 32) :
    Addressed clients a b buffer seq data ↔
      a = b ∧ a.id.toNat < 2 ^ 32 ∧ holder clients (low a.id) = some a ∧
        data.length ≤ buffer := by
  have hinj : ∀ c ∈ clients, ∀ d ∈ clients, c.id = d.id → c = d := fun c hc d hd =>
    inj_on_of_nodup_map hids hc hd
  constructor
  · rintro ⟨hdelivered, hreported, hanswered⟩
    obtain ⟨c, hc, hcid⟩ := (delivered_iff a hdata).mp hdelivered
    obtain ⟨d, hd, hdid⟩ := (delivered_iff b hdata).mp hanswered
    rw [receives_makeFrame b hdata] at hreported
    split_ifs at hreported with hlarge
    have hremote : low b.id = a.id := by simpa using hreported
    -- the two share their low half, and the relay has one place for it
    have hkey : low a.id = low b.id := by rw [← hremote, low_low]
    rw [hkey, hc] at hd
    obtain rfl := Option.some.inj hd
    have hsame : a = b := hinj a ha b hb (hdid.symm.trans hcid)
    refine ⟨hsame, (low_eq_self_iff a.id).mp (hkey.trans hremote), ?_, Nat.le_of_not_lt hlarge⟩
    rw [hkey, hc, hinj c (mem_of_holder hc) a ha hdid]
  · rintro ⟨rfl, hsmall, hholder, hroom⟩
    have hdelivered : deliveries (connected clients) a (makeFrame seq a.id forward data) =
        [(a.id, makeFrame seq a.id forward data)] :=
      (delivered_iff a hdata).mpr ⟨a, hholder, rfl⟩
    refine ⟨hdelivered, ?_, hdelivered⟩
    rw [receives_makeFrame a hdata, if_neg (Nat.not_lt.mpr hroom),
      (low_eq_self_iff a.id).mpr hsmall]

/-- A client that writes to itself. -/
theorem addressed_self :
    Addressed [⟨5, .tcp⟩, ⟨6, .quic⟩] ⟨5, .tcp⟩ ⟨5, .tcp⟩ 1500 1 [42] :=
  (addressed_iff [⟨5, .tcp⟩, ⟨6, .quic⟩] ⟨5, .tcp⟩ ⟨5, .tcp⟩ 1500 1 [42] (by decide) (by decide)
    (by decide) (by decide)).mpr (by decide)

/-- **No way back.** Client 2 takes the frame of client 1 for one of its own, and its reply comes
back to itself. And of two clients with the same low half, the one that has registered last gets
the frames for both. -/
theorem reply_to_oneself :
    let clients : List Client := [⟨1, .tcp⟩, ⟨2, .tcp⟩]
    let twins : List Client := [⟨1, .tcp⟩, ⟨2, .tcp⟩, ⟨0x100000002, .tcp⟩]
    deliveries (connected clients) ⟨1, .tcp⟩ (makeFrame 1 2 forward [42]) =
        [(2, makeFrame 1 2 forward [42])] ∧
      Client.receives ⟨2, .tcp⟩ 1500 (makeFrame 1 2 forward [42]) = [.packet [42] 2] ∧
      deliveries (connected clients) ⟨2, .tcp⟩ (makeFrame 1 2 forward [43]) =
        [(2, makeFrame 1 2 forward [43])] ∧
      deliveries (connected twins) ⟨1, .tcp⟩ (makeFrame 1 2 forward [42]) =
        [(0x100000002, makeFrame 1 2 forward [42])] := by
  refine ⟨?_, ?_, ?_, ?_⟩ <;> decide +kernel

end Wireflow.Relay
