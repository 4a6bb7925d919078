/-
# Configuration pushes and connected peers

A configuration message that lists a peer again should not disturb the connection with it. But
`Start` only looks at whether a discovery is running, and none is running once a connection is
there: the push begins a new discovery, with new handshakes, and a remote whose session is active
takes a handshake for a restart of the other side and restarts as well (`push_restarts_remote`).

Only a probe whose discovery is still running is left alone (`push_undisturbed_iff`).
-/

import Wireflow.Theorems.Node.Handshakes

namespace Wireflow.Agent

open Semantics Node
open Wireflow.Infra

section

variable {codec : KeyCodec} {settings : Settings} {n : Node} {peer : Peer} {appId : String}
  {p : Probe} {answers : Node.Provisioned} {msg : Message}

/-- A configuration message, and what the provisioner answers to it. -/
abbrev Push := Node.Provisioned × Message

def Node.push (codec : KeyCodec) (n : Node) (m : Push) : Node :=
  (n.handleEvent codec m.1 m.2).2

/-- The packets of one probe that a push sends. -/
def Node.pushSends (codec : KeyCodec) (settings : Settings) (appId : String) (n : Node)
    (m : Push) : List SignalPacket :=
  ((n.messageSends codec settings m.1 m.2).filter (·.via = appId)).map Sent.packet

/-- Handling a push leaves the connection of a probe alone: no handshake is sent, the probe is as
it was, with its state, its transport and no discovery but the one it had, the device is the same,
and the remote does not notice. -/
structure Undisturbed (codec : KeyCodec) (settings : Settings) (appId : String) (n : Node)
    (m : Push) : Prop where
  sends : n.pushSends codec settings appId m = []
  probe : (n.push codec m).probes appId = n.probes appId
  device : (n.push codec m).device = n.device
  remote : ∀ (remote : Node) (trouble : Trouble),
    (n.pushSends codec settings appId m).foldl (fun r pk => r.handle codec trouble pk) remote =
      remote

/-! ## A probe that is running -/

theorem probes_addPeer_of_running (hprobe : n.probes appId = some p) (hrunning : p.running = true)
    (q : Peer) : (n.addPeer codec q).2.probes appId = some p := by
  unfold addPeer
  dsimp only
  split_ifs
  · exact hprobe
  · cases codec.parseKey q.publicKey with
    | none => exact hprobe
    | some key =>
      by_cases happ : appId = q.appId
      · subst happ
        simp [setProbe, getProbe, hprobe, Probe.start, hrunning]
      · simpa [setProbe, happ] using hprobe

/-- The calls are made by nodes that have what adding peers keeps. -/
theorem addPeerCalls_induction {P : Node → Prop}
    (hadd : ∀ q n, P n → P (n.addPeer codec q).2) (hn : P n) :
    ∀ call ∈ n.addPeerCalls codec answers msg, P call.1 := by
  have hremote : ∀ (peers : List Peer) (n : Node), P n →
      ∀ call ∈ n.remoteCalls codec peers, P call.1 := by
    intro peers
    induction peers with
    | nil => exact fun n hn call hcall => (nomatch hcall)
    | cons q peers ih =>
      intro n hn call hcall
      rw [remoteCalls, List.mem_cons] at hcall
      rcases hcall with rfl | hcall
      · exact hn
      · have hafter := hadd q n hn
        split at hcall
        · cases hcall
        · rename_i next heq
          rw [heq] at hafter
          exact ih next hafter call hcall
  intro call hcall
  rw [addPeerCalls, List.mem_append] at hcall
  rcases hcall with hcall | hcall
  · split at hcall
    · rw [List.mem_singleton.mp hcall]
      exact hn
    · cases hcall
  · have hcurrent : P (n.applyCurrent codec answers msg.current).2 := by
      unfold applyCurrent
      split
      · exact hn
      · split
        · exact hn
        · exact hadd _ n hn
    split at hcall
    · cases hcall
    · rename_i next heq
      rw [heq] at hcurrent
      exact hremote _ next hcurrent call hcall

/-- `AddPeer` sends through the probe of the peer, and only if it is not running. -/
theorem running_of_mem_addPeerSends {s : Sent} (h : s ∈ n.addPeerSends codec settings peer) :
    s.via = peer.appId ∧ ∀ p, n.probes peer.appId = some p → p.running = false := by
  unfold addPeerSends at h
  split_ifs at h
  · cases h
  · cases hkey : codec.parseKey peer.publicKey with
    | none => simp [hkey] at h
    | some key =>
      simp only [hkey, startSends] at h
      split_ifs at h with hrunning
      · cases h
      · constructor
        · simp only [iceSends, wrrpSends] at h
          rcases List.mem_append.mp h with h | h <;> split_ifs at h <;>
            simp_all
        · intro p hprobe
          simpa [getProbe, hprobe] using hrunning

theorem pushSends_of_running (codec : KeyCodec) (settings : Settings) (m : Push)
    (hprobe : n.probes appId = some p) (hrunning : p.running = true) :
    n.pushSends codec settings appId m = [] := by
  rw [pushSends, List.map_eq_nil_iff, List.filter_eq_nil_iff]
  intro s hs hvia
  obtain ⟨call, hcall, hsent⟩ := List.mem_flatMap.mp hs
  have hcaller : call.1.probes appId = some p :=
    addPeerCalls_induction (P := fun n => n.probes appId = some p)
      (fun q n h => probes_addPeer_of_running h hrunning q) hprobe call hcall
  obtain ⟨happ, hidle⟩ := running_of_mem_addPeerSends hsent
  have hsame : appId = call.2.appId := (of_decide_eq_true hvia).symm.trans happ
  rw [hidle p (hsame ▸ hcaller)] at hrunning
  cases hrunning

/-- A push finds a running probe as any other does: nothing happens to it. -/
theorem undisturbed_of_running (codec : KeyCodec) (settings : Settings) (m : Push)
    (hprobe : n.probes appId = some p) (hrunning : p.running = true) :
    Undisturbed codec settings appId n m := by
  have hsends := pushSends_of_running codec settings m hprobe hrunning
  refine ⟨hsends, ?_, ?_, fun remote trouble => ?_⟩
  · rw [hprobe]
    exact handleEvent_induction (P := fun n => n.probes appId = some p)
      (fun q _ n h => probes_addPeer_of_running h hrunning q) hprobe
  · exact handleEvent_induction (P := fun n' => n'.device = n.device)
      (fun q _ n' h => (device_addPeer q).trans h) rfl
  · rw [hsends]
    rfl

/-! ## A probe that is not running -/

/-- The shortest push that lists a peer. -/
def pushOf (peer : Peer) : Push := ({}, { current := {}, computedPeers := [peer] })

end

/-- **Pushes and connected peers.** The pushes that list a peer leave its connection alone, however
many they are, if and only if a discovery of its probe is running. -/
theorem push_undisturbed_iff (codec : KeyCodec) (settings : Settings) {n : Node} {peer : Peer}
    {p : Probe} {key : Key} (hprobe : n.probes peer.appId = some p)
    (hkey : codec.parseKey peer.publicKey = some key)
    (hother : peer.publicKey ≠ n.current.publicKey) :
    (∀ pushes : List Push, (∀ m ∈ pushes, peer ∈ m.2.computedPeers) →
      AlongSteps (Node.push codec) (Undisturbed codec settings peer.appId) n pushes) ↔
        p.running = true := by
  constructor
  · intro h
    have hfirst : Undisturbed codec settings peer.appId n (pushOf peer) :=
      (h [pushOf peer] (by simp [pushOf])).1
    have hstart := hfirst.probe
    simp only [push, pushOf, handleEvent, applyFullConfig,
      applyCurrent] at hstart
    simp [applyRemotePeers, addPeer, hother, hkey, setProbe, getProbe,
      hprobe] at hstart
    by_contra hidle
    -- the probe has begun a discovery
    have hrunning : p.start.running = true := by rw [Probe.start, if_neg hidle]
    exact hidle (hstart ▸ hrunning)
  · intro hrunning pushes _
    refine (AlongSteps.invariant (I := fun n => n.probes peer.appId = some p)
      (fun n m hn _ => ?_) hprobe
      (alongSteps_of_forall (fun _ _ _ => trivial) n)).1
    have hundisturbed := undisturbed_of_running codec settings m hn hrunning
    exact ⟨hundisturbed, hundisturbed.probe.trans hn⟩

/-! ## Two nodes -/

namespace Reconnect

open Comeback

/-- `a` has been told about `b`, and `b` about `a`. -/
def tellsOfA : Message := { current := b, computedPeers := [a] }

/-- The packets of the handshake over WRRP, which `b` drives: its id is the larger one. -/
def packet (sender : PeerID) (type : PacketType) (info : Peer) : SignalPacket :=
  { senderId := sender, dialer := .wrrp, type := type, info := .decoded info }

/-- `a`, connected with `b` over WRRP. -/
def nodeA : Node :=
  fresh.run codec [.message {} withB, .packet {} (packet 2 .handshakeSyn b),
    .packet {} (packet 2 .offer b), .report "b" false (.connected .wrrp)]

/-- `b`, connected with `a` over WRRP. -/
def nodeB : Node :=
  { current := b, localId := ⟨"b", 2#256 <<< 192⟩ : Node }.run codec
    [.message {} tellsOfA, .packet {} (packet 1 .handshakeAck a), .packet {} (packet 1 .answer a),
      .report "a" false (.connected .wrrp)]

/-- `b`, after what a second push with the same content makes `a` send. -/
def nodeBAfter : Node :=
  (nodeA.pushSends codec {} "b" ({}, withB)).foldl (fun r pk => r.handle codec {} pk) nodeB

end Reconnect

open Comeback in
/-- Pushes that come while the first discovery is running leave the probe alone. -/
theorem push_during_discovery :
    AlongSteps (Node.push codec) (Undisturbed codec {} "b") (fresh.push codec ({}, withB))
      [({}, withB), ({}, withB)] := by
  have hprobe : (fresh.push codec ({}, withB)).probes b.appId =
      some (Probe.start { remoteId := ⟨"b", 2#256 <<< 192⟩ }) := rfl
  have hkey : codec.parseKey b.publicKey = some (2#256 <<< 192) := by decide
  refine (push_undisturbed_iff codec {} hprobe hkey (by decide)).mpr rfl _ fun m hm => ?_
  have hsame : m = ({}, withB) := by simpa using hm
  rw [hsame]
  exact List.mem_singleton.mpr rfl

open Comeback Reconnect in
/-- **A push disturbs both sides.** The nodes are connected and no discovery is running. A push
with the configuration that `a` has already makes it begin a discovery and send a handshake, and
`b`, whose session is active, restarts. -/
theorem push_restarts_remote :
    (nodeA.probes "b").map (fun p => (p.state, p.transport, p.running)) =
        some (.wrrpReady, some .wrrp, false) ∧
      (nodeB.probes "a").map (fun p => (p.state, p.transport, p.running, p.wrrp.active)) =
        some (.wrrpReady, some .wrrp, false, true) ∧
      (nodeA.pushSends codec {} "b" ({}, withB)).map (fun pk => (pk.dialer, pk.type)) =
        [(.wrrp, .handshakeSyn)] ∧
      ((nodeA.push codec ({}, withB)).probes "b").map (·.running) = some true ∧
      (nodeBAfter.probes "a").map (fun p => (p.running, p.wrrp.active)) = some (true, false) := by
  refine ⟨?_, ?_, ?_, ?_, ?_⟩ <;> decide +kernel

end Wireflow.Agent
