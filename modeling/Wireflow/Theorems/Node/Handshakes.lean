/-
# What a handshake can do

Handshake packets carry information about the peer that sends them, and the node believes it. Two
things follow.

The entries of the peer manager that a packet overwrites are those that the peer info names, not
those of the sender (`handshake_local_iff`): a peer that claims the `AppID` of another one, or of
the node itself, replaces its entry (`own_entry_replaced`).

And the addresses that the device accepts from a peer are those that the peer has claimed
(`allowedIPs_assigned_iff`). What the control plane assigned to it is not looked at, so a peer
gets whatever it asks for (`everything_allowed`).
-/

import Wireflow.Theorems.Node.Revocation

namespace Wireflow.Agent

open Semantics Function Node Probe Option
open Wireflow.Infra

section

variable {codec : KeyCodec} {n : Node} {trouble : Trouble} {pk : SignalPacket}
  {remote : PeerIdentity}

/-! ## The peer manager -/

/-- All entries but those of a remote are the same, by `AppID` and by `PeerID`. -/
structure OnlyTouches (remote : PeerIdentity) (m m' : PeerManager) : Prop where
  peers : ∀ appId, appId ≠ remote.appId → m'.peers appId = m.peers appId
  byID : ∀ id, id ≠ fromKey remote.publicKey → m'.byID id = m.byID id

/-- The peer info names the remote, or repeats what the peer manager has. -/
structure Truthful (codec : KeyCodec) (remote : PeerIdentity) (m : PeerManager) (peer : Peer) :
    Prop where
  appId : peer.appId = remote.appId ∨ m.peers peer.appId = some peer
  key : ∀ key, peer.publicKey ≠ "" → codec.parseKey peer.publicKey = some key →
    fromKey key = fromKey remote.publicKey ∨ m.byID (fromKey key) = some peer

theorem onlyTouches_addPeer_iff {m : PeerManager} {peer : Peer} :
    OnlyTouches remote m (m.addPeer codec peer.appId peer) ↔ Truthful codec remote m peer := by
  constructor
  · intro h
    refine ⟨?_, fun key hempty hkey => ?_⟩
    · by_contra hne
      rw [not_or] at hne
      apply hne.2
      rw [← h.peers peer.appId hne.1]
      simp [PeerManager.addPeer]
    · by_contra hne
      rw [not_or] at hne
      apply hne.2
      rw [← h.byID (fromKey key) hne.1]
      simp [PeerManager.addPeer, hempty, hkey]
  · intro h
    refine ⟨fun appId hne => ?_, fun id hne => ?_⟩
    · by_cases happ : appId = peer.appId
      · subst happ
        rcases h.appId with hsame | hsame
        · exact absurd hsame hne
        · rw [hsame]
          simp [PeerManager.addPeer]
      · simp [PeerManager.addPeer, happ]
    · unfold PeerManager.addPeer
      by_cases hempty : peer.publicKey = ""
      · simp [hempty]
      · cases hkey : codec.parseKey peer.publicKey with
        | none => simp [hempty]
        | some key =>
          by_cases hid : id = fromKey key
          · subst hid
            rcases h.key key hempty hkey with hsame | hsame
            · exact absurd hsame hne
            · simp [hempty, hsame]
          · simp [hempty, hid]

/-- A packet that is resolved to a remote touches only the entries of that remote if and only if
the peer info that is taken from it, if any, names the remote or repeats an entry. -/
theorem handshake_local_iff (trouble : Trouble)
    (hremote : n.manager.getIdentity codec pk.senderId = some remote) :
    OnlyTouches remote n.manager (n.handle codec trouble pk).manager ↔
      ∀ peer, (n.getProbe remote).receives pk = some peer →
        Truthful codec remote n.manager peer := by
  simp only [handle, hremote, setProbe, onPeerReceived]
  cases (n.getProbe remote).receives pk with
  | none => simpa using ⟨fun _ _ => rfl, fun _ _ => rfl⟩
  | some peer => simpa using onlyTouches_addPeer_iff

/-! ## What is written to the device

Besides the node, an `Informed` state notes which message was the last, and what the remote of
each probe has claimed last. -/

structure Informed where
  node : Node
  last : Option Message := none
  claims : String → Option Peer := fun _ => none

/-- The peer info that a packet makes the node take, and the `AppID` that it is taken for. -/
def taken (codec : KeyCodec) (n : Node) (pk : SignalPacket) : Option (String × Peer) :=
  match n.manager.getIdentity codec pk.senderId with
  | none => none
  | some remote => ((n.getProbe remote).receives pk).map (remote.appId, ·)

namespace Informed

/-- The last message. -/
def lastAfter (s : Informed) : Event → Option Message
  | .message _ msg => some msg
  | .packet _ _ | .report _ _ _ | .addPeer _ | .removePeer _ _ => s.last

/-- What has been claimed. A peer that is removed starts again. -/
def claimsAfter (codec : KeyCodec) (s : Informed) : Event → String → Option Peer
  | .packet _ pk =>
      match taken codec s.node pk with
      | none => s.claims
      | some (appId, peer) => update s.claims appId (some peer)
  | .removePeer _ peer => update s.claims peer.appId none
  | .message _ _ | .report _ _ _ | .addPeer _ => s.claims

def step (codec : KeyCodec) (s : Informed) (e : Event) : Informed where
  node := s.node.step codec e
  last := s.lastAfter e
  claims := s.claimsAfter codec e

/-- A node that has not heard of any peer yet. -/
def start (n : Node) : Informed where
  node := { n with probes := fun _ => none }

end Informed

/-- What a probe has been told, if there is one. -/
def told (n : Node) (appId : String) : Option Peer := (n.probes appId).bind Probe.remotePeer

theorem told_setProbe {appId : String} {p : Probe} (h : p.remotePeer = told n appId) :
    told (n.setProbe appId p) = told n := by
  funext b
  by_cases hb : b = appId
  · subst hb
    simpa [told, setProbe] using h
  · simp [told, setProbe, hb]

theorem remotePeer_getProbe (remote : PeerIdentity) :
    (n.getProbe remote).remotePeer = told n remote.appId := by
  unfold getProbe told
  cases n.probes remote.appId <;> rfl

theorem remotePeer_start (p : Probe) : p.start.remotePeer = p.remotePeer := by
  unfold start
  split_ifs <;> rfl

theorem remotePeer_restart (p : Probe) : p.restart.remotePeer = p.remotePeer := remotePeer_start _

theorem remotePeer_after (p : Probe) : (p.after trouble pk).remotePeer = p.remotePeer := by
  unfold after iceAfter wrrpAfter
  cases pk.dialer with
  | ice =>
    cases pk.type with
    | handshakeSyn | handshakeAck =>
      dsimp only
      split_ifs <;> rfl
    | _ => rfl
  | wrrp =>
    cases pk.type with
    | handshakeSyn =>
      dsimp only
      split_ifs
      · exact remotePeer_restart p
      · rfl
    | offer | answer =>
      dsimp only
      split_ifs <;> rfl
    | _ => rfl

theorem remotePeer_transition (target : PeerState) (wgFails : Bool) (p : Probe) (device : Device) :
    (p.transition target wgFails device).1.remotePeer = p.remotePeer := by
  unfold transition onTransition
  split_ifs
  · cases p.remotePeer with
    | none => rfl
    | some peer =>
      dsimp only
      split_ifs <;> rfl
  all_goals rfl

theorem told_addPeer (q : Peer) : told (n.addPeer codec q).2 = told n := by
  unfold addPeer
  dsimp only
  split_ifs
  · rfl
  · cases codec.parseKey q.publicKey with
    | none => rfl
    | some key =>
      apply told_setProbe
      rw [remotePeer_start, remotePeer_getProbe]

theorem device_addPeer (q : Peer) : (n.addPeer codec q).2.device = n.device := by
  unfold addPeer
  dsimp only
  split_ifs
  · rfl
  · cases codec.parseKey q.publicKey <;> rfl

theorem told_report (appId : String) (wgFails : Bool) (r : Node.Report) :
    told (n.report appId wgFails r) = told n := by
  unfold report
  cases hprobe : n.probes appId with
  | none => rfl
  | some p =>
    have htold : p.remotePeer = told n appId := by rw [told, hprobe, bind_some]
    apply told_setProbe
    rw [← htold]
    cases r with
    | connected t | upgraded | failed | unreachable => exact remotePeer_transition _ _ _ _
    | dialerClosed => exact (remotePeer_restart _).trans (remotePeer_transition _ _ _ _)
    | retry => exact remotePeer_restart _
    | prepared =>
      dsimp only
      split_ifs <;> rfl
    | iceClosed => rfl

theorem told_onPeerReceived (remote : PeerIdentity) (received : Option Peer) :
    told (n.onPeerReceived codec trouble remote.appId (n.getProbe remote) received) =
      match received with
      | none => told n
      | some peer => update (told n) remote.appId (some peer) := by
  cases received with
  | none => exact told_setProbe (remotePeer_getProbe remote)
  | some peer =>
    funext b
    by_cases hb : b = remote.appId
    · subst hb
      simp only [told, onPeerReceived, setProbe, onPeerKnown, update_self]
      split_ifs <;> rfl
    · simp [told, onPeerReceived, setProbe, hb]

/-- A packet tells the probe of its sender what is taken from it. -/
theorem told_handle :
    told (n.handle codec trouble pk) =
      match taken codec n pk with
      | none => told n
      | some (appId, peer) => update (told n) appId (some peer) := by
  unfold handle taken
  cases n.manager.getIdentity codec pk.senderId with
  | none => rfl
  | some remote =>
    dsimp only
    rw [told_setProbe, told_onPeerReceived]
    · cases (n.getProbe remote).receives pk <;> rfl
    · rw [remotePeer_after, remotePeer_getProbe]

theorem told_removePeer (wgFails : Bool) (q : Peer) :
    told (n.removePeer codec wgFails q).2 = update (told n) q.appId none := by
  have hprobes : (n.removePeer codec wgFails q).2.probes =
      update n.probes q.appId none := by
    unfold removePeer
    dsimp only
    split
    · rfl
    · split_ifs <;> rfl
  funext b
  by_cases hb : b = q.appId
  · subst hb
    simp [told, hprobes]
  · simp [told, hprobes, hb]

/-- The probes know what their remotes have claimed. -/
theorem told_step {s : Informed} (h : told s.node = s.claims) (e : Event) :
    told (s.step codec e).node = (s.step codec e).claims := by
  cases e with
  | message answers msg =>
    exact handleEvent_induction (P := fun n => told n = s.claims)
      (fun q _ n hn => (told_addPeer q).trans hn) h
  | packet trouble pk =>
    refine told_handle.trans ?_
    simp only [Informed.step, Informed.claimsAfter, h]
  | report appId wgFails r => exact (told_report appId wgFails r).trans h
  | addPeer q => exact (told_addPeer q).trans h
  | removePeer wgFails q =>
    refine (told_removePeer wgFails q).trans ?_
    rw [h]
    rfl

/-- Entries that `SetEndpoint` writes. -/
theorem allowedIPs_transitionWrites {appId : String} {target : PeerState} {wgFails : Bool}
    {p : Probe} {w : DeviceWrite} (h : w ∈ p.transitionWrites appId target wgFails) :
    w = ⟨appId, p.remoteId.publicKey, allowedFor p.remotePeer⟩ := by
  have hendpoint : w ∈ p.endpointWrites appId wgFails →
      w = ⟨appId, p.remoteId.publicKey, allowedFor p.remotePeer⟩ := by
    intro hw
    unfold endpointWrites at hw
    split_ifs at hw
    · cases hw
    · exact List.mem_singleton.mp hw
  unfold transitionWrites at h
  split_ifs at h
  · split at h
    · cases h
    · split_ifs at h
      · exact hendpoint h
      · cases h
  · exact hendpoint h
  all_goals cases h

/-- **What is written is what was claimed.** -/
theorem allowedIPs_writes {s : Informed} (h : told s.node = s.claims) {e : Event}
    {w : DeviceWrite} (hw : w ∈ s.node.writes codec e) :
    w.allowedIPs = allowedFor (s.claimsAfter codec e w.via) := by
  cases e with
  | packet trouble pk =>
    unfold writes at hw
    dsimp only at hw
    split at hw
    · cases hw
    · rename_i remote hremote
      split at hw
      · cases hw
      · rename_i peer hpeer
        have htaken : taken codec s.node pk = some (remote.appId, peer) := by
          simp [taken, hremote, hpeer]
        unfold knownWrites at hw
        split_ifs at hw
        · cases hw
        · obtain rfl := List.mem_singleton.mp hw
          simp [Informed.claimsAfter, htaken, allowedFor]
  | report appId wgFails r =>
    unfold writes at hw
    dsimp only at hw
    split at hw
    · cases hw
    · rename_i p hprobe
      have htold : p.remotePeer = s.claims appId := by
        rw [← h, told, hprobe, bind_some]
      cases r with
      | connected t | upgraded =>
        obtain rfl := allowedIPs_transitionWrites hw
        exact congrArg allowedFor htold
      | _ => cases hw
  | _ => cases hw

/-! The entries of the device are those that were written. -/

/-- What has been written since is in the device, and what is in it was there before or has been
written since. -/
structure Recorded (writes : List DeviceWrite) (before after : Device) : Prop where
  present : ∀ w ∈ writes, after w.key = true
  written : ∀ key, after key = true → before key = true ∨ ∃ w ∈ writes, w.key = key

theorem recorded_nil {before after : Device} (h : ∀ key, after key = true → before key = true) :
    Recorded [] before after :=
  ⟨fun _ hw => (nomatch hw), fun key hkey => .inl (h key hkey)⟩

theorem recorded_endpointWrites (appId : String) (wgFails : Bool) (p q : Probe) (device : Device)
    (hkey : q.remoteId.publicKey = p.remoteId.publicKey) :
    Recorded (p.endpointWrites appId wgFails) device (q.setEndpoint wgFails device) := by
  unfold endpointWrites setEndpoint
  cases wgFails with
  | true => exact recorded_nil fun _ hkey => hkey
  | false =>
    rw [hkey]
    refine ⟨fun w hw => ?_, fun key hafter => ?_⟩
    · rw [List.mem_singleton.mp hw]
      simp
    · by_cases heq : key = p.remoteId.publicKey
      · exact .inr ⟨_, List.mem_cons_self, heq.symm⟩
      · exact .inl (by simpa [heq] using hafter)

theorem recorded_transition (appId : String) (target : PeerState) (wgFails : Bool) (p : Probe)
    (device : Device) :
    Recorded (p.transitionWrites appId target wgFails) device
      (p.transition target wgFails device).2 := by
  have hsame : Recorded [] device device := recorded_nil fun _ hkey => hkey
  unfold transitionWrites transition
  by_cases hallowed : target ∈ allowedTransitions p.state
  · rw [if_neg (not_not.mpr hallowed), if_pos hallowed, onTransition]
    by_cases hfirst : p.state = .probing ∧ (target = .iceReady ∨ target = .wrrpReady)
    · rw [if_pos hfirst, if_pos hfirst]
      dsimp only
      cases p.remotePeer with
      | none => exact hsame
      | some peer =>
        dsimp only
        split_ifs
        · exact recorded_endpointWrites appId wgFails p _ device rfl
        · exact hsame
    · rw [if_neg hfirst, if_neg hfirst]
      by_cases hupgrade : p.state = .wrrpReady ∧ target = .iceReady
      · rw [if_pos hupgrade, if_pos hupgrade]
        dsimp only
        split_ifs
        · exact recorded_endpointWrites appId wgFails p _ device rfl
        · exact hsame
      · rw [if_neg hupgrade, if_neg hupgrade]
        split_ifs
        · exact hsame
        · refine recorded_nil fun key hafter => ?_
          by_cases heq : key = p.remoteId.publicKey
          · simp [heq] at hafter
          · simpa [heq] using hafter
        · exact hsame
  · rw [if_pos hallowed, if_neg hallowed]
    exact hsame

theorem recorded_handle : Recorded (n.writes codec (.packet trouble pk)) n.device
    (n.handle codec trouble pk).device := by
  cases hident : n.manager.getIdentity codec pk.senderId with
  | none =>
    simp only [writes, handle, hident]
    exact recorded_nil fun _ hkey => hkey
  | some remote =>
    simp only [writes, handle, hident]
    have hdevice : ∀ key, (n.onPeerReceived codec trouble remote.appId (n.getProbe remote)
        ((n.getProbe remote).receives pk)).device key = true ↔ _ := fun _ => device_onPeerReceived
    unfold Registers at hdevice
    cases hreceives : (n.getProbe remote).receives pk with
    | none =>
      rw [hreceives] at hdevice
      refine recorded_nil fun key hkey => ?_
      rcases (hdevice key).mp hkey with hold | ⟨-, -, -, -, sent, hsent, -⟩
      · exact hold
      · cases hsent
    | some peer =>
      rw [hreceives] at hdevice
      simp only [knownWrites]
      split_ifs with hskip
      · refine recorded_nil fun key hkey => ?_
        rcases (hdevice key).mp hkey with hold | ⟨-, hknown, hregistered, hwg, sent, hsent, hsome⟩
        · exact hold
        · obtain rfl := some.inj hsent
          simp [hknown, hregistered, hwg, isSome_iff_ne_none.mp hsome] at hskip
      · simp only [Bool.or_eq_true, not_or, Bool.not_eq_true, isNone_eq_false_iff] at hskip
        obtain ⟨⟨⟨hknown, hsome⟩, hregistered⟩, hwg⟩ := hskip
        refine ⟨fun w hw => ?_, fun key hkey => ?_⟩
        · rw [List.mem_singleton.mp hw]
          exact (hdevice _).mpr (.inr ⟨rfl, hknown, hregistered, hwg, peer, rfl, hsome⟩)
        · rcases (hdevice key).mp hkey with hold | ⟨hsame, -⟩
          · exact .inl hold
          · exact .inr ⟨_, List.mem_cons_self, hsame⟩

theorem recorded_report (appId : String) (wgFails : Bool) (r : Node.Report) :
    Recorded (n.writes codec (.report appId wgFails r)) n.device
      (n.report appId wgFails r).device := by
  have hnone : ∀ (target : PeerState) (p : Probe) (device : Device),
      target = .failed ∨ target = .closed →
      Recorded [] device (p.transition target wgFails device).2 := by
    intro target p device htarget
    have hwrites : p.transitionWrites appId target wgFails = [] := by
      unfold transitionWrites
      rcases htarget with rfl | rfl <;> simp
    rw [← hwrites]
    exact recorded_transition appId target wgFails p device
  cases hprobe : n.probes appId with
  | none =>
    simp only [writes, report, hprobe]
    exact recorded_nil fun _ hkey => hkey
  | some p =>
    simp only [writes, report, hprobe]
    cases r with
    | connected t =>
      have hready := recorded_transition appId (readyState t) wgFails
        { p with running := false, transport := some t } n.device
      cases t <;> exact hready
    | upgraded =>
      exact recorded_transition appId .iceReady wgFails { p with transport := some .ice } n.device
    | dialerClosed | failed => exact hnone .failed _ n.device (.inl rfl)
    | unreachable => exact hnone .closed _ n.device (.inr rfl)
    | retry | prepared | iceClosed => exact recorded_nil fun _ hkey => hkey

/-- `Node.writes` is what happens to the device of the node. -/
theorem recorded_step (e : Event) :
    Recorded (n.writes codec e) n.device (n.step codec e).device := by
  cases e with
  | message answers msg =>
    refine recorded_nil fun key hkey => ?_
    have hdevice : (n.handleEvent codec answers msg).2.device = n.device :=
      handleEvent_induction (P := fun n' => n'.device = n.device)
        (fun q _ n' hn' => (device_addPeer q).trans hn') rfl
    exact hdevice ▸ hkey
  | packet trouble pk => exact recorded_handle
  | report appId wgFails r => exact recorded_report appId wgFails r
  | addPeer q =>
    refine recorded_nil fun key hkey => ?_
    have hdevice : (n.addPeer codec q).2.device = n.device := device_addPeer q
    exact hdevice ▸ hkey
  | removePeer wgFails q =>
    refine recorded_nil fun key hkey => ?_
    change (n.removePeer codec wgFails q).2.device key = true at hkey
    unfold removePeer at hkey
    dsimp only at hkey
    split at hkey
    · exact hkey
    · rename_i removedKey _
      split_ifs at hkey
      · exact hkey
      · by_cases heq : key = removedKey
        · simp [heq] at hkey
        · simpa [heq] using hkey

/-! ## The theorem on addresses -/

/-- A configuration message assigns the addresses to the key. -/
def Assigned (codec : KeyCodec) (last : Option Message) (key : Key) (allowedIPs : String) : Prop :=
  ∃ msg ∈ last, ∃ peer ∈ msg.computedPeers,
    codec.parseKey peer.publicKey = some key ∧ effectiveIPs peer = allowedIPs

/-- Every entry for the key that is written in the run has the addresses that the last
configuration message assigned. -/
def WritesAssigned (codec : KeyCodec) (key : Key) (s : Informed) (events : List Event) : Prop :=
  AlongSteps (Informed.step codec) (fun s e => ∀ w ∈ s.node.writes codec e, w.key = key →
    Assigned codec (s.lastAfter e) key w.allowedIPs) s events

/-- Whenever an entry for the key is written in the run, what its remote has claimed last is what
the last configuration message assigned. -/
def ClaimsAssigned (codec : KeyCodec) (key : Key) (s : Informed) (events : List Event) : Prop :=
  AlongSteps (Informed.step codec) (fun s e => ∀ w ∈ s.node.writes codec e, w.key = key →
    Assigned codec (s.lastAfter e) key (allowedFor (s.claimsAfter codec e w.via))) s events

end

/-- In every run of a node, the addresses that are written for a key are those that the control
plane has assigned if and only if the remote claims just these whenever an entry is written. -/
theorem allowedIPs_assigned_iff (codec : KeyCodec) (n : Node) (key : Key) (events : List Event) :
    WritesAssigned codec key (.start n) events ↔ ClaimsAssigned codec key (.start n) events := by
  have hstart : told (Informed.start n).node = (Informed.start n).claims := rfl
  constructor
  · intro h
    refine (h.invariant (I := fun s => told s.node = s.claims) ?_ hstart).1
    refine fun s e hs hwrites => ⟨fun w hw hkey => ?_, told_step hs e⟩
    rw [← allowedIPs_writes hs hw]
    exact hwrites w hw hkey
  · intro h
    refine (h.invariant (I := fun s => told s.node = s.claims) ?_ hstart).1
    refine fun s e hs hclaims => ⟨fun w hw hkey => ?_, told_step hs e⟩
    rw [allowedIPs_writes hs hw]
    exact hclaims w hw hkey

/-! ## Peer info that is not about the sender -/

namespace Claims

open Comeback (codec a b fresh withB)

/-- A node that has been told about `b`. -/
def acquainted : Node := (fresh.handleEvent codec {} withB).2

/-- A handshake of `b`, with some peer info. -/
def syn (peer : Peer) : SignalPacket :=
  { senderId := 2, dialer := .wrrp, type := .handshakeSyn, info := .decoded peer }

def identity : PeerIdentity := ⟨"b", 2#256 <<< 192⟩

theorem resolved :
    acquainted.manager.getIdentity codec 2 = some identity := by
  decide +kernel

/-- The peer info of a node that lies about its `AppID`. -/
def impostor : Peer := { b with appId := "a" }

end Claims

open Claims Comeback in
/-- A handshake with honest peer info. -/
theorem handshake_local_honest :
    OnlyTouches identity acquainted.manager (acquainted.handle codec {} (syn b)).manager := by
  have hresolved : acquainted.manager.getIdentity codec (syn b).senderId = some identity :=
    resolved
  refine (handshake_local_iff {} hresolved).mpr fun peer hpeer => ?_
  obtain rfl : b = peer := some.inj hpeer
  refine ⟨.inl rfl, fun key _ hkey => .inl ?_⟩
  obtain rfl : 2#256 <<< 192 = key := some.inj hkey
  rfl

open Claims Comeback in
/-- A handshake of `b` that claims the `AppID` of the node replaces the node's own entry, which is
the one that is sent to all remotes. -/
theorem own_entry_replaced :
    (acquainted.manager.peers "a").map Peer.publicKey = some "A" ∧
      ((acquainted.handle codec {} (syn impostor)).manager.peers "a").map Peer.publicKey =
        some "B" ∧
      ¬ OnlyTouches identity acquainted.manager
        (acquainted.handle codec {} (syn impostor)).manager := by
  have hbefore : (acquainted.manager.peers "a").map Peer.publicKey = some "A" := by decide +kernel
  have hafter : ((acquainted.handle codec {} (syn impostor)).manager.peers "a").map
      Peer.publicKey = some "B" := by decide +kernel
  refine ⟨hbefore, hafter, fun htouches => ?_⟩
  rw [htouches.peers "a" (by decide), hbefore] at hafter
  exact absurd hafter (by decide)

namespace Claims

open Comeback (codec a b fresh withB)

/-- Peer info that asks for all traffic. -/
def greedy : Peer := { b with allowedIPs := "0.0.0.0/0" }

/-- The control plane assigns one address to `b`, which then sends one packet. -/
def greedyRun : List Event := [.message {} withB, .packet {} (syn greedy)]

end Claims

open Claims Comeback in
/-- The entry of `b` accepts all addresses, although one has been assigned to it. -/
theorem everything_allowed :
    effectiveIPs b = "10.0.0.2/32" ∧
      acquainted.writes codec (.packet {} (syn greedy)) =
        [⟨"b", 2#256 <<< 192, "0.0.0.0/0"⟩] ∧
      ¬ WritesAssigned codec (2#256 <<< 192) (.start fresh) greedyRun := by
  have hwrites : acquainted.writes codec (.packet {} (syn greedy)) =
      [⟨"b", 2#256 <<< 192, "0.0.0.0/0"⟩] := by decide +kernel
  refine ⟨rfl, hwrites, fun hassigned => ?_⟩
  obtain ⟨-, hpacket, -⟩ := hassigned
  have hmem : (⟨"b", 2#256 <<< 192, "0.0.0.0/0"⟩ : DeviceWrite) ∈
      acquainted.writes codec (.packet {} (syn greedy)) := by
    rw [hwrites]
    exact List.mem_cons_self
  obtain ⟨msg, hmsg, peer, hpeer, -, hips⟩ := hpacket _ hmem rfl
  obtain rfl : withB = msg := some.inj hmsg
  obtain rfl := List.mem_singleton.mp hpeer
  exact absurd hips (by decide)

end Wireflow.Agent
