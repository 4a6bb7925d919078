/-
# Revocation on the node

After a configuration message the remote peers that the node knows, in any of its three places,
should be those of the message; and a peer that was removed should stay away until it is added
again.

A configuration message only adds. What was there before stays, so a peer that a message no
longer lists keeps its identity, its probe and its entry in the device (first part of
`revocation_iff`). `RemovePeer` takes away the probe and the entry and leaves the identity, so
the next packet of the removed peer is resolved and makes a new probe (second part).
-/

import Wireflow.Agent.Node
import Wireflow.Semantics.Steps

namespace Wireflow.Agent

open Wireflow.Infra Function PeerManager List
open Wireflow.Infra Semantics Function

section

variable {codec : KeyCodec} {n n' n'' : Node} {peer : Peer} {peers : List Peer} {id : PeerID}

/-! ## Identities -/

/-- The identity that a peer has for the peer manager. -/
def identityOf (codec : KeyCodec) (peer : Peer) : Option PeerIdentity :=
  if peer.publicKey = "" then none
  else (codec.parseKey peer.publicKey).map fun key => ⟨peer.appId, key⟩

/-- Adding the peer writes the entry for the `PeerID`. -/
def Takes (codec : KeyCodec) (peer : Peer) (id : PeerID) : Prop :=
  ∃ ident, identityOf codec peer = some ident ∧ fromKey ident.publicKey = id

instance : Decidable (Takes codec peer id) :=
  decidable_of_iff ((identityOf codec peer).map (fromKey ·.publicKey) = some id)
    Option.map_eq_some_iff

theorem index_apply (entry : Option Peer) (byID : PeerID → Option Peer) :
    index codec peer entry byID id =
      if Takes codec peer id then entry else byID id := by
  unfold index
  by_cases hempty : peer.publicKey = ""
  · simp [hempty, Takes, identityOf]
  · cases hkey : codec.parseKey peer.publicKey with
    | none => simp [hempty, hkey, Takes, identityOf]
    | some key => simp [hempty, hkey, Takes, identityOf, update_apply, eq_comm]

theorem byID_addPeer (m : PeerManager) (appId : String) :
    (m.addPeer codec appId peer).byID id = if Takes codec peer id then some peer else m.byID id :=
  index_apply (some peer) m.byID

/-- The peers of a list are added one after the other. -/
def addAll (codec : KeyCodec) (peers : List Peer) (m : PeerManager) : PeerManager :=
  peers.foldl (fun m p => m.addPeer codec p.appId p) m

/-- After that an identity is that of a peer of the list, or none of them has touched it. -/
theorem getIdentity_addAll (peers : List Peer) (m : PeerManager) :
    (∃ p ∈ peers, Takes codec p id ∧
      (addAll codec peers m).getIdentity codec id = identityOf codec p) ∨
    ((∀ p ∈ peers, ¬ Takes codec p id) ∧
      (addAll codec peers m).getIdentity codec id = m.getIdentity codec id) := by
  induction peers generalizing m with
  | nil => exact .inr ⟨by simp, rfl⟩
  | cons a peers ih =>
    rcases ih (m.addPeer codec a.appId a) with ⟨p, hp, htakes, hident⟩ | ⟨hnone, hident⟩
    · exact .inl ⟨p, .tail _ hp, htakes, hident⟩
    · by_cases htakes : Takes codec a id
      · refine .inl ⟨a, .head _, htakes, hident.trans ?_⟩
        rw [getIdentity, byID_addPeer, if_pos htakes]
        rfl
      · refine .inr ⟨?_, ?_⟩
        · intro p hp
          rcases mem_cons.mp hp with rfl | hp
          · exact htakes
          · exact hnone p hp
        · refine hident.trans ?_
          rw [getIdentity, byID_addPeer, if_neg htakes]
          rfl

/-! ## What a configuration message does -/

/-- What adding peers has done to the node. -/
structure Applied (codec : KeyCodec) (peers : List Peer) (n n' : Node) : Prop where
  manager : n'.manager = addAll codec peers n.manager
  device : n'.device = n.device
  localId : n'.localId = n.localId
  current : n'.current = n.current
  probes : ∀ a, (n'.probes a).isSome ↔ (n.probes a).isSome ∨
    ∃ p ∈ peers, p.publicKey ≠ n.current.publicKey ∧ p.appId = a

theorem Applied.nil (codec : KeyCodec) (n : Node) : Applied codec [] n n :=
  ⟨rfl, rfl, rfl, rfl, by simp⟩

theorem Applied.append {more : List Peer} (h : Applied codec peers n n')
    (h' : Applied codec more n' n'') : Applied codec (peers ++ more) n n'' where
  manager := by rw [h'.manager, h.manager, addAll, addAll, addAll, foldl_append]
  device := h'.device.trans h.device
  localId := h'.localId.trans h.localId
  current := h'.current.trans h.current
  probes a := by
    rw [h'.probes, h.probes, h.current, or_assoc]
    simp only [mem_append, or_and_right, exists_or]

theorem applied_addPeer (h : n.addPeer codec peer = (.ok (), n')) :
    Applied codec [peer] n n' := by
  unfold Node.addPeer at h
  dsimp only at h
  split_ifs at h with hown
  · cases h
    exact ⟨rfl, rfl, rfl, rfl, by simp [hown]⟩
  · cases hkey : codec.parseKey peer.publicKey with
    | none => simp [hkey] at h
    | some key =>
      rw [hkey] at h
      cases h
      refine ⟨rfl, rfl, rfl, rfl, ?_⟩
      intro a
      by_cases ha : a = peer.appId
      · subst ha
        simp [Node.setProbe, hown]
      · simp [Node.setProbe, update_of_ne ha, Ne.symm ha]

theorem applied_applyRemotePeers (h : n.applyRemotePeers codec peers = (.ok (), n')) :
    Applied codec peers n n' := by
  induction peers generalizing n with
  | nil =>
    cases h
    exact .nil codec _
  | cons a peers ih =>
    rw [Node.applyRemotePeers] at h
    split at h
    · cases h
    · next n₁ hadd => exact (applied_addPeer hadd).append (ih h)

/-- The node's own peer, if the message has an address for it. -/
def ownPeers (msg : Message) : List Peer :=
  match msg.current.address with
  | none => []
  | some address => [Node.withAllowedIPs msg.current address]

variable {answers : Node.Provisioned} {msg : Message}

theorem applied_applyCurrent (h : n.applyCurrent codec answers msg.current = (.ok (), n')) :
    Applied codec (ownPeers msg) n n' := by
  unfold Node.applyCurrent at h
  unfold ownPeers
  cases haddress : msg.current.address with
  | none =>
    rw [haddress] at h
    cases h
    exact .nil codec n
  | some address =>
    rw [haddress] at h
    dsimp only at h
    split at h
    · cases h
    · exact applied_addPeer h

/-- A message that is handled has been applied: first the node's own peer, then the others. -/
theorem applied_handleEvent (h : n.handleEvent codec answers msg = (.ok (), n')) :
    Applied codec (ownPeers msg ++ msg.computedPeers) n n' := by
  unfold Node.handleEvent at h
  split at h
  · cases h
  · next n₁ happly =>
    cases h
    unfold Node.applyFullConfig at happly
    split at happly
    · cases happly
    · next n₂ hcurrent =>
      split at happly
      · cases happly
      · next n₃ hremote =>
        obtain ⟨-, rfl⟩ := Prod.mk.inj happly
        exact (applied_applyCurrent hcurrent).append (applied_applyRemotePeers hremote)

/-! ## What is contained in a message -/

/-- Every remote peer that has a probe, an entry in the device or an identity is in the list. -/
structure Contained (codec : KeyCodec) (n : Node) (peers : List Peer) : Prop where
  probes : ∀ a, (n.probes a).isSome → ∃ p ∈ peers, p.appId = a
  device : ∀ key, n.device key = true → ∃ p ∈ peers, codec.parseKey p.publicKey = some key
  identities : ∀ id ident, n.manager.getIdentity codec id = some ident → ident ≠ n.localId →
    ∃ p ∈ peers, identityOf codec p = some ident

/-- What was there before is in the message, or is overwritten by it; and the message's own peer
is the node itself. -/
structure CarriesOver (codec : KeyCodec) (n : Node) (msg : Message) : Prop where
  probes : ∀ a, (n.probes a).isSome → ∃ p ∈ msg.computedPeers, p.appId = a
  device : ∀ key, n.device key = true →
    ∃ p ∈ msg.computedPeers, codec.parseKey p.publicKey = some key
  identities : ∀ id ident, n.manager.getIdentity codec id = some ident → ident ≠ n.localId →
    (∃ p ∈ ownPeers msg ++ msg.computedPeers, Takes codec p id) ∨
      ∃ p ∈ msg.computedPeers, identityOf codec p = some ident
  ownProbe : ∀ p ∈ ownPeers msg, p.publicKey ≠ n.current.publicKey →
    ∃ q ∈ msg.computedPeers, q.appId = p.appId
  ownIdentity : ∀ p ∈ ownPeers msg, ∀ ident, identityOf codec p = some ident →
    ident = n.localId ∨ ∃ q ∈ msg.computedPeers, Takes codec q (fromKey ident.publicKey)

theorem ownPeers_eq {p q : Peer} (hp : p ∈ ownPeers msg) (hq : q ∈ ownPeers msg) :
    p = q := by
  unfold ownPeers at hp hq
  split at hp
  · cases hp
  · next address haddress =>
    rw [haddress] at hq
    rw [mem_singleton.mp hp, mem_singleton.mp hq]

/-- The identities after a message: that of a peer of the message, that of its own peer, or an
older one. -/
theorem getIdentity_message (codec : KeyCodec) (id : PeerID) (msg : Message) (m : PeerManager) :
    (∃ p ∈ msg.computedPeers, Takes codec p id ∧
      (addAll codec (ownPeers msg ++ msg.computedPeers) m).getIdentity codec id =
        identityOf codec p) ∨
    ((∀ p ∈ msg.computedPeers, ¬ Takes codec p id) ∧ ∃ p ∈ ownPeers msg, Takes codec p id ∧
      (addAll codec (ownPeers msg ++ msg.computedPeers) m).getIdentity codec id =
        identityOf codec p) ∨
    ((∀ p ∈ ownPeers msg ++ msg.computedPeers, ¬ Takes codec p id) ∧
      (addAll codec (ownPeers msg ++ msg.computedPeers) m).getIdentity codec id =
        m.getIdentity codec id) := by
  have hsplit : addAll codec (ownPeers msg ++ msg.computedPeers) m =
      addAll codec msg.computedPeers (addAll codec (ownPeers msg) m) := foldl_append ..
  rw [hsplit]
  rcases getIdentity_addAll msg.computedPeers (addAll codec (ownPeers msg) m) with
    hpeer | ⟨hnone, hident⟩
  · exact .inl hpeer
  · rw [hident]
    rcases getIdentity_addAll (ownPeers msg) m with hown | ⟨hnone', hident'⟩
    · exact .inr (.inl ⟨hnone, hown⟩)
    · refine .inr (.inr ⟨?_, hident'⟩)
      intro p hp
      rcases mem_append.mp hp with hp | hp
      · exact hnone' p hp
      · exact hnone p hp

theorem contained_iff_carriesOver (h : Applied codec (ownPeers msg ++ msg.computedPeers) n n') :
    Contained codec n' msg.computedPeers ↔ CarriesOver codec n msg := by
  constructor
  · intro hcontained
    refine ⟨?_, ?_, ?_, ?_, ?_⟩
    · intro a ha
      exact hcontained.probes a ((h.probes a).mpr (.inl ha))
    · intro key hkey
      exact hcontained.device key (by rw [h.device]; exact hkey)
    · intro id ident hident hremote
      by_cases htaken : ∃ p ∈ ownPeers msg ++ msg.computedPeers, Takes codec p id
      · exact .inl htaken
      · -- nothing in the message touches the identity, so it is there afterwards
        refine .inr (hcontained.identities id ident ?_ (by rw [h.localId]; exact hremote))
        rw [h.manager]
        rcases getIdentity_message codec id msg n.manager with
          ⟨p, hp, htakes, -⟩ | ⟨-, p, hp, htakes, -⟩ | ⟨-, hsame⟩
        · exact absurd ⟨p, mem_append_right _ hp, htakes⟩ htaken
        · exact absurd ⟨p, mem_append_left _ hp, htakes⟩ htaken
        · rw [hsame]
          exact hident
    · intro p hp hkey
      exact hcontained.probes p.appId
        ((h.probes _).mpr (.inr ⟨p, mem_append_left _ hp, hkey, rfl⟩))
    · intro p hp ident hident
      by_cases hown : ident = n.localId
      · exact .inl hown
      · refine .inr ?_
        by_contra hnone
        have hafter : n'.manager.getIdentity codec (fromKey ident.publicKey) = some ident := by
          rw [h.manager]
          rcases getIdentity_message codec (fromKey ident.publicKey) msg n.manager with
            ⟨q, hq, htakes, -⟩ | ⟨-, q, hq, -, hsame⟩ | ⟨hnot, -⟩
          · exact absurd ⟨q, hq, htakes⟩ hnone
          · rw [hsame, ownPeers_eq hq hp, hident]
          · exact absurd ⟨ident, hident, rfl⟩ (hnot p (mem_append_left _ hp))
        obtain ⟨q, hq, hq'⟩ := hcontained.identities _ ident hafter (by rw [h.localId]; exact hown)
        exact hnone ⟨q, hq, ident, hq', rfl⟩
  · intro hcarries
    refine ⟨?_, ?_, ?_⟩
    · intro a ha
      rcases (h.probes a).mp ha with hold | ⟨p, hp, hkey, rfl⟩
      · exact hcarries.probes a hold
      · rcases mem_append.mp hp with hp | hp
        · exact hcarries.ownProbe p hp hkey
        · exact ⟨p, hp, rfl⟩
    · intro key hkey
      rw [h.device] at hkey
      exact hcarries.device key hkey
    · intro id ident hident hremote
      rw [h.manager] at hident
      rw [h.localId] at hremote
      rcases getIdentity_message codec id msg n.manager with
        ⟨p, hp, -, hsame⟩ | ⟨hnone, p, hp, ⟨ident', hident', hid⟩, hsame⟩ | ⟨hnone, hsame⟩
      · exact ⟨p, hp, hsame.symm.trans hident⟩
      · rw [hsame, hident', Option.some_inj] at hident
        subst hident
        rcases hcarries.ownIdentity p hp ident' hident' with hlocal | ⟨q, hq, htakes⟩
        · exact absurd hlocal hremote
        · rw [hid] at htakes
          exact absurd htakes (hnone q hq)
      · rw [hsame] at hident
        rcases hcarries.identities id ident hident hremote with ⟨p, hp, htakes⟩ | hlisted
        · exact absurd htakes (hnone p hp)
        · exact hlisted

/-! ## What brings a peer back -/

/-- The peer has a probe, or an entry in the device. -/
def Installed (codec : KeyCodec) (peer : Peer) (n : Node) : Prop :=
  (n.probes peer.appId).isSome ∨
    ∃ key, codec.parseKey peer.publicKey = some key ∧ n.device key = true

/-- The packet makes the probe register its key. -/
def Registers (trouble : Trouble) (pk : SignalPacket) (probe : Probe) : Prop :=
  probe.peerKnownDone = false ∧ probe.registered = false ∧ trouble.wgFails = false ∧
    ∃ sent, probe.receives pk = some sent ∧ sent.address.isSome

/-- The event brings the peer back: a packet that is resolved to its `AppID`, or that makes the
probe for another `AppID` register its key, or a report by which such a probe writes the entry. -/
def Reaches (codec : KeyCodec) (peer : Peer) (n : Node) : Event → Prop
  | .packet trouble pk => ∃ ident, n.manager.getIdentity codec pk.senderId = some ident ∧
      (ident.appId = peer.appId ∨
        (codec.parseKey peer.publicKey = some (n.getProbe ident).remoteId.publicKey ∧
          Registers trouble pk (n.getProbe ident)))
  | .report appId wgFails r => ∃ key, codec.parseKey peer.publicKey = some key ∧
      (n.report appId wgFails r).device key = true
  | .message _ _ | .addPeer _ | .removePeer _ _ => False

/-- The event adds a peer with this `AppID`. -/
def Adds (peer : Peer) : Event → Prop
  | .message _ msg => ∃ p ∈ ownPeers msg ++ msg.computedPeers, p.appId = peer.appId
  | .addPeer p => p.appId = peer.appId
  | .packet _ _ | .report _ _ _ | .removePeer _ _ => False

theorem isSome_setProbe {a b : String} {p : Probe} :
    ((n.setProbe a p).probes b).isSome ↔ b = a ∨ (n.probes b).isSome := by
  unfold Node.setProbe
  by_cases hb : b = a
  · subst hb
    simp
  · simp [hb]

/-- The device after the peer info of a packet was taken in. -/
theorem device_onPeerReceived {trouble : Trouble} {pk : SignalPacket} {a : String} {p : Probe}
    {key : Key} : (n.onPeerReceived codec trouble a p (p.receives pk)).device key = true ↔
      n.device key = true ∨ (p.remoteId.publicKey = key ∧ Registers trouble pk p) := by
  unfold Registers
  cases hreceived : p.receives pk with
  | none => simp [Node.onPeerReceived, Node.setProbe]
  | some sent =>
    unfold Node.onPeerReceived Probe.onPeerKnown
    dsimp only
    by_cases hskip : (p.peerKnownDone || sent.address.isNone) = true
    · simp only [Bool.or_eq_true, Option.isNone_iff_eq_none] at hskip
      rcases hskip with hskip | hskip <;> simp [hskip]
    · rw [if_neg hskip]
      simp only [Bool.or_eq_true, not_or, Bool.not_eq_true, Option.isNone_eq_false_iff] at hskip
      by_cases hregistered : p.registered = true
      · simp [hregistered]
      · cases hwg : trouble.wgFails with
        | true => simp [hregistered]
        | false =>
          by_cases hkey : key = p.remoteId.publicKey
          · subst hkey
            simp [hregistered, hskip]
          · simp [hregistered, update_of_ne hkey, Ne.symm hkey]

/-- **One packet.** It brings back a peer that was away exactly when it reaches it. -/
theorem installed_handle_iff {trouble : Trouble} {pk : SignalPacket}
    (haway : ¬ Installed codec peer n) :
    Installed codec peer (n.handle codec trouble pk) ↔
      Reaches codec peer n (.packet trouble pk) := by
  unfold Node.handle Reaches
  cases hident : n.manager.getIdentity codec pk.senderId with
  | none => simp [haway, hident]
  | some ident =>
    have hprobes : ∀ b, (((n.onPeerReceived codec trouble ident.appId (n.getProbe ident)
        ((n.getProbe ident).receives pk)).probes b).isSome) ↔
        b = ident.appId ∨ (n.probes b).isSome := by
      intro b
      cases (n.getProbe ident).receives pk <;> exact isSome_setProbe
    unfold Installed at haway ⊢
    rw [not_or] at haway
    rw [isSome_setProbe, hprobes]
    have hdevice : ∀ key, (Node.setProbe ident.appId (Probe.after trouble pk (Node.getProbe ident
        (n.onPeerReceived codec trouble ident.appId (n.getProbe ident)
          ((n.getProbe ident).receives pk)))) (n.onPeerReceived codec trouble ident.appId
            (n.getProbe ident) ((n.getProbe ident).receives pk))).device key = true ↔ _ :=
      fun key => device_onPeerReceived
    simp only [hdevice, hident, Option.some.injEq, exists_eq_left']
    constructor
    · intro h
      rcases h with (happ | happ | hold) | ⟨key, hkey, hold | ⟨hsame, hregisters⟩⟩
      · exact .inl happ.symm
      · exact .inl happ.symm
      · exact absurd hold haway.1
      · exact absurd ⟨key, hkey, hold⟩ haway.2
      · exact .inr ⟨by rw [hsame]; exact hkey, hregisters⟩
    · intro h
      rcases h with happ | ⟨hkey, hregisters⟩
      · exact .inl (.inl happ.symm)
      · exact .inr ⟨_, hkey, .inr ⟨rfl, hregisters⟩⟩

/-- Adding a peer, even without success, leaves the other probes and the device alone. -/
theorem away_addPeer {q : Peer} (haway : ¬ Installed codec peer n) (hq : q.appId ≠ peer.appId) :
    ¬ Installed codec peer (n.addPeer codec q).2 := by
  unfold Node.addPeer
  dsimp only
  split_ifs
  · exact haway
  · cases codec.parseKey q.publicKey with
    | none => exact haway
    | some key =>
      unfold Installed at haway ⊢
      rw [isSome_setProbe]
      intro h
      rcases h with (happ | hold) | hdevice
      · exact hq happ.symm
      · exact haway (.inl hold)
      · exact haway (.inr hdevice)

/-- **Messages add peers and do nothing else.** What adding the peers of a message keeps, the
message keeps, even if it cannot be applied to its end. -/
theorem handleEvent_induction {P : Node → Prop}
    (hadd : ∀ q ∈ ownPeers msg ++ msg.computedPeers, ∀ n, P n → P (n.addPeer codec q).2) (hn : P n)
    : P (n.handleEvent codec answers msg).2 := by
  have hremote : ∀ (peers : List Peer), (∀ q ∈ peers, q ∈ msg.computedPeers) → ∀ n, P n →
      P (n.applyRemotePeers codec peers).2 := by
    intro peers
    induction peers with
    | nil => exact fun _ n hn => hn
    | cons a peers ih =>
      intro hpeers n hn
      rw [forall_mem_cons] at hpeers
      have hafter := hadd a (mem_append_right _ hpeers.1) n hn
      rw [Node.applyRemotePeers]
      split
      · next err n₁ heq => rwa [heq] at hafter
      · next n₁ heq =>
        rw [heq] at hafter
        exact ih hpeers.2 n₁ hafter
  have hcurrent : P (n.applyCurrent codec answers msg.current).2 := by
    have hown : ∀ address, msg.current.address = some address →
        Node.withAllowedIPs msg.current address ∈ ownPeers msg := by
      intro address haddress
      rw [ownPeers, haddress]
      exact mem_cons_self
    unfold Node.applyCurrent
    split
    · exact hn
    · next address haddress =>
      split
      · exact hn
      · exact hadd _ (mem_append_left _ (hown address haddress)) n hn
  have hconfig : P (n.applyFullConfig codec answers msg).2 := by
    unfold Node.applyFullConfig
    split
    · next err n₁ heq => rwa [heq] at hcurrent
    · next n₁ heq =>
      rw [heq] at hcurrent
      have hpeers := hremote msg.computedPeers (fun _ hq => hq) n₁ hcurrent
      split
      · next err n₂ heq => rwa [heq] at hpeers
      · next n₂ heq => rwa [heq] at hpeers
  unfold Node.handleEvent
  split
  · next err n₁ heq => rwa [heq] at hconfig
  · next n₁ heq => rwa [heq] at hconfig

variable {wgFails : Bool}

theorem away_removePeer {q : Peer} (haway : ¬ Installed codec peer n) :
    ¬ Installed codec peer (n.removePeer codec wgFails q).2 := by
  have hprobes : ∀ a, (update n.probes q.appId none a).isSome → (n.probes a).isSome := by
    intro a
    by_cases ha : a = q.appId
    · subst ha
      simp
    · simp [update_of_ne ha]
  have hdevice : ∀ key key', update n.device key false key' = true →
      n.device key' = true := by
    intro key key'
    by_cases hkey : key' = key
    · subst hkey
      simp
    · simp [update_of_ne hkey]
  unfold Node.removePeer
  unfold Installed at haway ⊢
  rw [not_or] at haway ⊢
  split
  · exact ⟨fun h => haway.1 (hprobes _ h), haway.2⟩
  · split_ifs
    · exact ⟨fun h => haway.1 (hprobes _ h), haway.2⟩
    · refine ⟨fun h => haway.1 (hprobes _ h), fun h => haway.2 ?_⟩
      obtain ⟨key, hkey, hset⟩ := h
      exact ⟨key, hkey, hdevice _ key hset⟩

theorem probes_report {a b : String} {r : Node.Report} :
    ((n.report a wgFails r).probes b).isSome ↔ (n.probes b).isSome := by
  unfold Node.report
  cases ha : n.probes a with
  | none => rfl
  | some p =>
    rw [isSome_setProbe]
    constructor
    · intro h
      rcases h with rfl | h
      · simp [ha]
      · exact h
    · exact .inr

/-- **One event.** An event that does not add the peer brings it back exactly when it reaches
it. -/
theorem installed_step_iff {e : Event} (haway : ¬ Installed codec peer n) (hadds : ¬ Adds peer e) :
    Installed codec peer (n.step codec e) ↔ Reaches codec peer n e := by
  cases e with
  | message answers msg =>
    refine iff_of_false (handleEvent_induction (P := fun n => ¬ Installed codec peer n) ?_ haway) id
    exact fun q hq _ haway => away_addPeer haway fun heq => hadds ⟨q, hq, heq⟩
  | packet trouble pk => exact installed_handle_iff haway
  | report a wgFails r =>
    unfold Installed at haway
    rw [not_or] at haway
    change ((n.report a wgFails r).probes peer.appId).isSome ∨ _ ↔ _
    rw [probes_report, or_iff_right haway.1]
    rfl
  | addPeer q => exact iff_of_false (away_addPeer haway hadds) id
  | removePeer wgFails q => exact iff_of_false (away_removePeer haway) id

/-- A peer that was removed is away. -/
theorem away_of_removePeer (h : n.removePeer codec wgFails peer = (.ok (), n')) :
    ¬ Installed codec peer n' := by
  unfold Node.removePeer at h
  split at h
  · cases h
  · next key hkey =>
    split_ifs at h
    · cases (Prod.mk.inj h).1
    · obtain ⟨-, rfl⟩ := Prod.mk.inj h
      simp [Installed, hkey]

/-- **Whole runs.** A peer that is away, and that no event adds, stays away exactly when no event
of the run reaches it. -/
theorem away_run_iff {events : List Event} (haway : ¬ Installed codec peer n)
    (hadds : ∀ e ∈ events, ¬ Adds peer e) :
    (∀ k, ¬ Installed codec peer (n.run codec (events.take k))) ↔
      ∀ k e, events[k]? = some e → ¬ Reaches codec peer (n.run codec (events.take k)) e := by
  have hsucc : ∀ k e, events[k]? = some e →
      n.run codec (events.take (k + 1)) = (n.run codec (events.take k)).step codec e := by
    intro k e he
    rw [take_add_one, he, Node.run, foldl_append]
    rfl
  constructor
  · intro h k e he hreaches
    apply h (k + 1)
    rw [hsucc k e he]
    exact (installed_step_iff (h k) (hadds e (mem_of_getElem? he))).mpr hreaches
  · intro h k
    induction k with
    | zero => exact haway
    | succ k ih =>
      cases he : events[k]? with
      | none =>
        rw [take_add_one, he]
        simpa using ih
      | some e =>
        rw [hsucc k e he, installed_step_iff ih (hadds e (mem_of_getElem? he))]
        exact h k e he

end

/-! ## The theorem -/

/-- **Revocation.** After a message that was handled, what the node knows of remote peers is
contained in the message if and only if it carries over; and from a successful `RemovePeer` on,
as long as the peer is not added, it is away at every point if and only if no event reaches it. -/
theorem revocation_iff (codec : KeyCodec) :
    (∀ (n n' : Node) (answers : Node.Provisioned) (msg : Message),
      n.handleEvent codec answers msg = (.ok (), n') →
        (Contained codec n' msg.computedPeers ↔ CarriesOver codec n msg)) ∧
    (∀ (n n' : Node) (wgFails : Bool) (peer : Peer) (events : List Event),
      n.removePeer codec wgFails peer = (.ok (), n') → (∀ e ∈ events, ¬ Adds peer e) →
        ((∀ k, ¬ Installed codec peer (n'.run codec (events.take k))) ↔
          ∀ k e, events[k]? = some e →
            ¬ Reaches codec peer (n'.run codec (events.take k)) e)) := by
  constructor
  · intro n n' answers msg h
    exact contained_iff_carriesOver (applied_handleEvent h)
  · intro n n' wgFails peer events h hadds
    exact away_run_iff (away_of_removePeer h) hadds

/-! ## A peer that comes back -/

namespace Comeback

/-- Three keys, by name. -/
def codec : KeyCodec where
  parseKey text :=
    if text = "A" then some (1#256 <<< 192)
    else if text = "B" then some (2#256 <<< 192)
    else none

def a : Peer := { appId := "a", publicKey := "A", address := some "10.0.0.1" }

def b : Peer := { appId := "b", publicKey := "B", address := some "10.0.0.2" }

def fresh : Node :=
  { current := a
    localId := ⟨"a", 1#256 <<< 192⟩
    manager := PeerManager.addPeer codec "a" a {} }

/-- The configuration with `b`, and the one without. -/
def withB : Message := { current := a, computedPeers := [b] }

def withoutB : Message := { current := a }

/-- The first handshake of `b`. -/
def syn : SignalPacket :=
  { senderId := 2, dialer := .wrrp, type := .handshakeSyn, info := .decoded b }

/-- The node after the two configurations. -/
def configured : Node :=
  (((fresh.handleEvent codec {} withB).2).handleEvent codec {} withoutB).2

/-- And after `b` was removed. -/
def removed : Node := (configured.removePeer codec false b).2

end Comeback

open Comeback in
/-- **A revoked peer stays, and comes back.** A configuration without `b` leaves its probe and its
identity; `RemovePeer` takes the probe away, and a handshake of `b` brings probe and device entry
back. -/
theorem comes_back_after_removal :
    (fresh.handleEvent codec {} withB).1 = .ok () ∧
      (((fresh.handleEvent codec {} withB).2).handleEvent codec {} withoutB).1 = .ok () ∧
      (configured.probes "b").isSome = true ∧
      configured.manager.getIdentity codec 2 = some ⟨"b", 2#256 <<< 192⟩ ∧
      (configured.removePeer codec false b).1 = .ok () ∧
      (removed.probes "b").isSome = false ∧
      ((removed.handle codec {} syn).probes "b").isSome = true ∧
      (removed.handle codec {} syn).device (2#256 <<< 192) = true := by
  have hprobe : (configured.probes "b").isSome = true := by decide +kernel
  have hidentity : configured.manager.getIdentity codec 2 = some ⟨"b", 2#256 <<< 192⟩ := by
    decide +kernel
  have hremoved : (removed.probes "b").isSome = false := by decide +kernel
  have hback : ((removed.handle codec {} syn).probes "b").isSome = true := by decide +kernel
  have hdevice : (removed.handle codec {} syn).device (2#256 <<< 192) = true := by
    decide +kernel
  exact ⟨rfl, rfl, hprobe, hidentity, rfl, hremoved, hback, hdevice⟩

open Comeback in
/-- The first configuration is handled, and its peers are all the node knows. -/
theorem revocation_iff_first :
    Contained codec (fresh.handleEvent codec {} withB).2 withB.computedPeers ↔
      CarriesOver codec fresh withB :=
  (revocation_iff codec).1 fresh (fresh.handleEvent codec {} withB).2 {} withB rfl

/-!
## The two indexes of the peer manager

A peer is found by its `AppID` and by the `PeerID` of its key. The second index is written when
a peer is added and deleted from when one is removed, each time for one key only: a peer that
comes back with another key leaves the entry of the old one behind, and of two peers with one
`PeerID` the first that is removed takes the entry of both.
-/

/-- The calls that write the indexes. -/
inductive ManagerCall
  | addPeer (appId : String) (peer : Peer)
  | removePeer (appId : String)

def PeerManager.call (codec : KeyCodec) (m : PeerManager) : ManagerCall → PeerManager
  | .addPeer appId peer => m.addPeer codec appId peer
  | .removePeer appId => m.removePeer codec appId

/-- An entry is a current peer with that `PeerID`, and every current peer with a valid key has
an entry. -/
structure Indexed (codec : KeyCodec) (m : PeerManager) : Prop where
  current : ∀ id peer, m.byID id = some peer →
    Takes codec peer id ∧ ∃ appId, m.peers appId = some peer
  entry : ∀ id appId peer, m.peers appId = some peer → Takes codec peer id →
    ∃ entry, m.byID id = some entry

/-- The call replaces a peer by one with the same `PeerID`, or by any other if the entry is
another's; or it removes the only peer with its `PeerID`. -/
def Keeps (codec : KeyCodec) (m : PeerManager) : ManagerCall → Prop
  | .addPeer appId peer => ∀ old id, m.peers appId = some old → Takes codec old id →
      Takes codec peer id ∨ ∃ other ≠ appId, m.peers other = m.byID id
  | .removePeer appId => ∀ old id, m.peers appId = some old → Takes codec old id →
      ∀ other ≠ appId, ∀ peer, m.peers other = some peer → ¬ Takes codec peer id

variable {codec : KeyCodec} {m : PeerManager} {appId : String} {peer : Peer} {id : PeerID}

theorem byID_removePeer_eq_some : (m.removePeer codec appId).byID id = some peer ↔
    m.byID id = some peer ∧ ∀ old, m.peers appId = some old → ¬ Takes codec old id := by
  unfold removePeer
  cases hold : m.peers appId with
  | none => simp
  | some old =>
    dsimp only
    rw [index_apply]
    split_ifs with htakes <;> simp [htakes]

theorem indexed_addPeer_iff (h : Indexed codec m) :
    Indexed codec (m.addPeer codec appId peer) ↔ Keeps codec m (.addPeer appId peer) := by
  constructor
  · intro h' old id hold htakes
    refine or_iff_not_imp_left.mpr fun hnot => ?_
    obtain ⟨entry, hentry⟩ := h.entry id appId old hold htakes
    -- the entry stays, so it is the peer of another `AppID`
    obtain ⟨htakes', other, hother⟩ := h'.current id entry
      (by rw [byID_addPeer, if_neg hnot, hentry])
    simp only [addPeer, update_apply] at hother
    split_ifs at hother with hne
    · cases hother
      exact absurd htakes' hnot
    · exact ⟨other, hne, hother.trans hentry.symm⟩
  · intro hkeeps
    refine ⟨fun id p hp => ?_, fun id a p hp htakes => ?_⟩
    · rw [byID_addPeer] at hp
      split_ifs at hp with hnew
      · cases hp
        exact ⟨hnew, appId, update_self ..⟩
      · obtain ⟨htakes, a, ha⟩ := h.current id p hp
        by_cases hne : a = appId
        · obtain hnew' | ⟨other, hother, hsame⟩ := hkeeps p id (hne ▸ ha) htakes
          · exact absurd hnew' hnew
          · exact ⟨htakes, other, (update_of_ne hother ..).trans (hsame.trans hp)⟩
        · exact ⟨htakes, a, (update_of_ne hne ..).trans ha⟩
    · rw [byID_addPeer]
      split_ifs with hnew
      · exact ⟨peer, rfl⟩
      · simp only [addPeer, update_apply] at hp
        split_ifs at hp
        · cases hp
          exact absurd htakes hnew
        · exact h.entry id a p hp htakes

theorem indexed_removePeer_iff (h : Indexed codec m) :
    Indexed codec (m.removePeer codec appId) ↔ Keeps codec m (.removePeer appId) := by
  constructor
  · intro h' old id hold htakes other hne p hp htakes'
    obtain ⟨entry, hentry⟩ := h'.entry id other p ((update_of_ne hne ..).trans hp) htakes'
    exact (byID_removePeer_eq_some.mp hentry).2 old hold htakes
  · intro hkeeps
    refine ⟨fun id p hp => ?_, fun id a p hp htakes => ?_⟩
    · obtain ⟨hp, hnot⟩ := byID_removePeer_eq_some.mp hp
      obtain ⟨htakes, a, ha⟩ := h.current id p hp
      have hne : a ≠ appId := fun heq => hnot p (heq ▸ ha) htakes
      exact ⟨htakes, a, (update_of_ne hne ..).trans ha⟩
    · simp only [removePeer, update_apply] at hp
      split_ifs at hp with hne
      obtain ⟨entry, hentry⟩ := h.entry id a p hp htakes
      exact ⟨entry, byID_removePeer_eq_some.mpr
        ⟨hentry, fun old hold htakes' => hkeeps old id hold htakes' a hne p hp htakes⟩⟩

/-- **The indexes agree** after every call of a run if and only if no call replaces a peer whose
entry nobody else holds by one with another `PeerID`, and none removes one of two peers with
the same `PeerID`. -/
theorem indexed_along_iff (codec : KeyCodec) (calls : List ManagerCall) :
    AlongSteps (call codec) (fun m c => Indexed codec (m.call codec c)) {} calls ↔
      AlongSteps (call codec) (Keeps codec) {} calls := by
  have hinit : Indexed codec {} := ⟨nofun, nofun⟩
  refine AlongSteps.iff_of_invariant (I := Indexed codec) (fun m c h _ => ?_)
    (fun _ _ _ _ h => h) hinit (alongSteps_of_forall (fun _ _ _ => trivial) _)
  cases c with
  | addPeer appId peer => exact indexed_addPeer_iff h
  | removePeer appId => exact indexed_removePeer_iff h

/-- A codec that reads two keys. -/
def twoKeys : KeyCodec where
  parseKey
    | "k" => some 0
    | "l" => some (BitVec.allOnes 256)
    | _ => none

/-- A peer that comes back with another key is still found under the old one. -/
theorem indexed_fails_rotation : ¬ Indexed twoKeys (([.addPeer "a" { publicKey := "k" },
    .addPeer "a" { publicKey := "l" }] : List ManagerCall).foldl (.call twoKeys) {}) := by
  intro h
  obtain ⟨-, appId, happ⟩ := h.current 0 { publicKey := "k" } rfl
  simp [call, addPeer, update_apply] at happ

end Wireflow.Agent
