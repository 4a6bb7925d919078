/-
# What was dispatched last

The table of hashes says of every `AppID` which message was sent to it last. A node is addressed
by its key and not by its `AppID`; as long as no two peers share a `PeerID`, what was sent last to
a key under an `AppID` is what was sent last to the key.
-/

import Mathlib.Data.List.Chain
import Wireflow.Semantics.Steps
import Wireflow.Server.Dispatch

namespace Wireflow.Server

open Semantics Option
open Wireflow.Agent (Key PeerID fromKey)
open Wireflow.Api

variable {M : Type} {codec : MessageCodec M} {events : List Notice} {c : Dispatcher M} {e : Notice}
  {peer : Infra.Peer} {msg : M} {answer : Except GoError Unit}

/-- A peer, and its key, that a message of the run is for. -/
def Mentions (codec : MessageCodec M) (events : List Notice) (appId : String) (key : Key) : Prop :=
  ∃ e ∈ events, ∃ peer msg, Dispatcher.target codec e = some (peer, msg) ∧ peer.appId = appId ∧
    codec.parseKey peer.publicKey = some key

/-- What is assumed of a run: the hash tells messages apart, no two keys share a `PeerID`, and no
key is used under two `AppID`s. -/
structure Separate (codec : MessageCodec M) (events : List Notice) : Prop where
  hash : Function.Injective codec.hash
  ids : ∀ a k a' k', Mentions codec events a k → Mentions codec events a' k' →
    fromKey k = fromKey k' → k = k'
  keys : ∀ a a' k, Mentions codec events a k → Mentions codec events a' k → a = a'

namespace Dispatcher

/-- The last message that was sent to a node. -/
def lastSent (c : Dispatcher M) (id : PeerID) : Option M :=
  (c.sent.find? (·.peerID = id)).map (·.message)

/-- The messages that were sent under an `AppID`, the latest first. -/
def sentUnder (c : Dispatcher M) (appId : String) : List M :=
  (c.sent.filter (·.appId = appId)).map (·.message)

/-- If a push has returned nil, then its message is the last one that was sent to the node. -/
def Delivered (codec : MessageCodec M) (peer : Infra.Peer) (msg : M)
    (out : Except GoError Unit × Dispatcher M) : Prop :=
  out.1 = .ok () → ∃ key, codec.parseKey peer.publicKey = some key ∧
    out.2.lastSent (fromKey key) = some msg

def Acknowledged (codec : MessageCodec M) (c : Dispatcher M) (e : Notice) : Prop :=
  ∀ peer msg, target codec e = some (peer, msg) →
    Delivered codec peer msg (c.pushToNode codec e.answer peer msg)

/-- What the table says, and where everything that was sent came from. -/
structure Faithful (codec : MessageCodec M) (events : List Notice) (c : Dispatcher M) : Prop where
  table : ∀ appId, c.lastPushedHash appId = (c.sentUnder appId).head?.map codec.hash
  origin : ∀ d ∈ c.sent, ∃ peer key, codec.current d.message = some peer ∧ d.appId = peer.appId ∧
    codec.parseKey peer.publicKey = some key ∧ d.peerID = fromKey key ∧
    Mentions codec events peer.appId key
  changing : ∀ appId, (c.sentUnder appId).IsChain (· ≠ ·)

theorem target_eq_some (h : target codec e = some (peer, msg)) : codec.current msg = some peer := by
  simp only [target, bind_eq_some_iff, map_eq_some_iff, Prod.mk.injEq] at h
  obtain ⟨_, -, _, hcurrent, rfl, rfl⟩ := h
  exact hcurrent

theorem sentUnder_afterSend (key : Key) (appId : String) :
    (c.afterSend codec key peer msg).sentUnder appId =
      if peer.appId = appId then msg :: c.sentUnder appId else c.sentUnder appId := by
  simp only [afterSend, sentUnder, List.filter_cons, decide_eq_true_eq]
  split_ifs <;> rfl

/-- A push that returns nil has been skipped or has sent its message. -/
theorem pushToNode_cases (codec : MessageCodec M) (answer : Except GoError Unit)
    (peer : Infra.Peer) (msg : M) (c : Dispatcher M) :
    (c.lastPushedHash peer.appId = some (codec.hash msg) ∧
      c.pushToNode codec answer peer msg = (.ok (), c)) ∨
    (∃ err, c.pushToNode codec answer peer msg = (.error err, c)) ∨
    ∃ key, codec.parseKey peer.publicKey = some key ∧
      c.lastPushedHash peer.appId ≠ some (codec.hash msg) ∧
      c.pushToNode codec answer peer msg = (.ok (), c.afterSend codec key peer msg) := by
  unfold pushToNode
  split_ifs with hsame
  · exact .inl ⟨hsame, rfl⟩
  · cases codec.parseKey peer.publicKey with
    | none => exact .inr (.inl ⟨_, rfl⟩)
    | some key =>
      cases answer with
      | error err => exact .inr (.inl ⟨_, rfl⟩)
      | ok _ => exact .inr (.inr ⟨key, rfl, hsame, rfl⟩)

namespace Faithful

/-- What was sent last under an `AppID` was sent last to its key. -/
theorem lastSent (h : Faithful codec events c) (hrun : Separate codec events)
    (htarget : codec.current msg = some peer)
    (hskip : c.lastPushedHash peer.appId = some (codec.hash msg)) :
    ∃ key, codec.parseKey peer.publicKey = some key ∧ c.lastSent (fromKey key) = some msg := by
  rw [h.table, sentUnder, List.head?_map, map_map, List.head?_filter,
    map_eq_some_iff] at hskip
  obtain ⟨d, hfind, hsame⟩ := hskip
  have hmsg : d.message = msg := hrun.hash hsame
  obtain ⟨front, back, hsent, hbefore⟩ := (List.find?_eq_some_iff_append.mp hfind).2
  obtain ⟨peer', key, hcurrent, happ, hparse, hid, hmention⟩ :=
    h.origin d (List.mem_of_find?_eq_some hfind)
  rw [hmsg, htarget] at hcurrent
  cases hcurrent
  refine ⟨key, hparse, ?_⟩
  rw [Dispatcher.lastSent, map_eq_some_iff]
  refine ⟨d, List.find?_eq_some_iff_append.mpr ⟨by simpa using hid, front, back, hsent, ?_⟩, hmsg⟩
  -- whatever was sent later to this key was sent under the same `AppID`
  intro d' hd'
  by_contra hto
  obtain ⟨peer'', key', -, happ', -, hid', hmention'⟩ :=
    h.origin d' (by rw [hsent]; exact List.mem_append_left _ hd')
  have hkey := hrun.ids _ _ _ _ hmention' hmention (by rw [← hid']; simpa using hto)
  rw [hkey] at hmention'
  have hother := hbefore d' hd'
  rw [happ', hrun.keys _ _ _ hmention' hmention] at hother
  simp at hother

/-- Sending a message that was not the last one keeps the table right. -/
theorem send (h : Faithful codec events c) (htarget : codec.current msg = some peer) {key : Key}
    (hparse : codec.parseKey peer.publicKey = some key)
    (hmention : Mentions codec events peer.appId key)
    (hnew : c.lastPushedHash peer.appId ≠ some (codec.hash msg)) :
    Faithful codec events (c.afterSend codec key peer msg) := by
  refine ⟨fun appId => ?_, fun d hd => ?_, fun appId => ?_⟩
  · rw [sentUnder_afterSend, afterSend]
    by_cases happ : peer.appId = appId
    · simp [happ]
    · simp [happ, Ne.symm happ, h.table]
  · rcases List.mem_cons.mp hd with rfl | hd
    · exact ⟨peer, key, htarget, rfl, hparse, rfl, hmention⟩
    · exact h.origin d hd
  · rw [sentUnder_afterSend]
    split_ifs with happ
    · refine List.isChain_cons.mpr ⟨fun last hlast hsame => hnew ?_, h.changing appId⟩
      rw [happ, h.table, mem_def.mp hlast, hsame]
      rfl
    · exact h.changing appId

/-- Every event of the run is handled as it should be. -/
theorem step (h : Faithful codec events c) (hrun : Separate codec events) (he : e ∈ events) :
    Acknowledged codec c e ∧ Faithful codec events (handleConfigMapEvent codec c e) := by
  unfold handleConfigMapEvent
  rcases htarget : target codec e with _ | ⟨peer, msg⟩
  · exact ⟨fun _ _ h => absurd (htarget.symm.trans h) nofun, h⟩
  · suffices hpush : Delivered codec peer msg (c.pushToNode codec e.answer peer msg) ∧
        Faithful codec events (c.pushToNode codec e.answer peer msg).2 by
      refine ⟨fun peer' msg' h' => ?_, hpush.2⟩
      cases htarget.symm.trans h'
      exact hpush.1
    have hcurrent := target_eq_some htarget
    rcases pushToNode_cases codec e.answer peer msg c with
      ⟨hskip, hpush⟩ | ⟨err, hpush⟩ | ⟨key, hparse, hnew, hpush⟩
    all_goals rw [hpush]
    · exact ⟨fun _ => h.lastSent hrun hcurrent hskip, h⟩
    · exact ⟨nofun, h⟩
    · refine ⟨fun _ => ⟨key, hparse, ?_⟩,
        h.send hcurrent hparse ⟨e, he, peer, msg, htarget, rfl, hparse⟩ hnew⟩
      simp [Dispatcher.lastSent, afterSend]

end Faithful

/-- Two messages, for one peer. -/
def twoMessages : MessageCodec Bool where
  parseKey _ := some 0
  unmarshal text := some (text = "n")
  marshal message := if message then "n" else "o"
  current _ := some {}

/-- The change of a map to a message. -/
def toMessage (text : String) : Notice where
  eventType := "UPDATE"
  configMap := { metadata := {}, data := Go.GoMap.ofPairs [("config.json", text)] }
  answer := .ok ()

end Dispatcher

end Wireflow.Server
