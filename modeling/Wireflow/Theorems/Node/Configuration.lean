/-
# Who configures a node

Only the control plane should decide about the address of the interface, the firewall rules and
the peers of a node. But nothing tells a configuration message of the control plane from one that
another peer has sent: both come in packets of type `MESSAGE`, over the same subject or a relay,
and the sender is not looked at. A peer that sends one configures the node
(`peer_configures_node`).

All other packets leave the configuration alone, whatever they contain. `config_kept_iff` says
that a sequence of packets does so, for every node, if and only if none of them carries a message
that configures anything.
-/

import Wireflow.Agent.Signals
import Wireflow.Theorems.Node.Revocation

namespace Wireflow.Agent

open Semantics Function Host
open Wireflow.Infra

/-- What the control plane decides. -/
structure Config where
  address : Option String
  rules : Option FirewallRule
  configured : String → Option Peer

def Host.config (h : Host) : Config := ⟨h.address, h.rules, h.configured⟩

/-! ## Messages that configure something -/

/-- All peers are dropped. -/
def DetailsInfo.DropsAll (c : DetailsInfo) (current : Peer) : Prop :=
  c.addressChanged = true ∧ current.address = none ∧ c.networkLeft ≠ []

instance (c : DetailsInfo) (current : Peer) : Decidable (c.DropsAll current) :=
  inferInstanceAs (Decidable (_ ∧ _ ∧ _))

/-- The changes take effect: all peers are dropped, or some are added or removed. -/
def DetailsInfo.Touches (c : DetailsInfo) (current : Peer) : Prop :=
  c.hasChanges = true ∧ (c.DropsAll current ∨
    (∃ peer ∈ c.peersAdded, peer.publicKey ≠ current.publicKey) ∨ c.peersRemoved ≠ [])

/-- A message that says something about the address, the peers or the rules. -/
def PushedMessage.Configures (msg : PushedMessage) : Prop :=
  ∃ current, msg.current = some current ∧
    (current.address.isSome ∨ msg.computedPeers ≠ [] ∨ msg.computedRules.isSome ∨
      ∃ c, msg.changes = some c ∧ c.Touches current)

/-- A packet that carries such a message. -/
def Signal.Configures : Signal → Prop
  | .message (some msg) => msg.Configures
  | .message none | .packet _ | .undirected _ => False

/-- The packet that a delivery is decoded to. -/
def Delivery.decoded : Delivery → Option Signal
  | .nats decoded | .relay decoded => decoded

def Delivery.Configures (d : Delivery) : Prop := ∃ signal ∈ d.decoded, signal.Configures

section

variable {codec : KeyCodec} {h h' : Host} {current : Peer} {c : DetailsInfo} {wgFails : Bool}

theorem deliver_eq (d : Delivery) (conditions : Conditions) :
    h.deliver codec (d, conditions) = h.onMessage codec conditions d.decoded := by
  cases d <;> rfl

/-! ## Changes -/

/-- The peers after those of the changes were added. -/
def added (current : Peer) (peers : List Peer) (m : String → Option Peer) :
    String → Option Peer :=
  peers.foldl (fun m peer =>
    if peer.publicKey = current.publicKey then m else update m peer.appId (some peer)) m

variable (peers : List Peer) (m : String → Option Peer)

/-- The peers after those of the changes were removed. -/
def removed : String → Option Peer :=
  peers.foldl (fun m peer => update m peer.appId none) m

theorem added_cons (peer : Peer) (peers : List Peer) (m : String → Option Peer) :
    added current (peer :: peers) m = added current peers
      (if peer.publicKey = current.publicKey then m
        else update m peer.appId (some peer)) :=
  rfl

/-- An `AppID` that was there, or is added, is there. -/
theorem isSome_added (current : Peer) (peers : List Peer) (m : String → Option Peer)
    {appId : String} (h : (m appId).isSome ∨ ∃ peer ∈ peers, peer.publicKey ≠ current.publicKey ∧
      peer.appId = appId) :
    (added current peers m appId).isSome := by
  induction peers generalizing m with
  | nil => simpa [added] using h
  | cons peer peers ih =>
    apply ih
    rw [List.exists_mem_cons_iff] at h
    rcases h with hthere | ⟨hne, rfl⟩ | hlater
    · left
      dsimp only
      split_ifs
      · exact hthere
      · by_cases happ : appId = peer.appId <;> simp [happ, hthere]
    · exact .inl (by simp [hne])
    · exact .inr hlater

theorem added_of_own {peers : List Peer}
    (h : ∀ peer ∈ peers, peer.publicKey = current.publicKey) : added current peers m = m := by
  induction peers with
  | nil => rfl
  | cons peer peers ih =>
    rw [List.forall_mem_cons] at h
    rw [added_cons, if_pos h.1, ih h.2]

/-- An `AppID` that was not there, or is removed, is not there. -/
theorem removed_eq_none {appId : String}
    (h : m appId = none ∨ ∃ peer ∈ peers, peer.appId = appId) :
    removed peers m appId = none := by
  induction peers generalizing m with
  | nil => simpa [removed] using h
  | cons peer peers ih =>
    apply ih
    rw [List.exists_mem_cons_iff] at h
    rcases h with hgone | rfl | hlater
    · exact .inl (by simp [update_apply, hgone])
    · exact .inl (update_self _ _ _)
    · exact .inr hlater

/-- Adding and removing peers concerns nothing but the peers, and does not depend on the rest of
the host. -/
theorem config_changePeers (codec : KeyCodec) (wgFails : Bool) (c : DetailsInfo) (current : Peer)
    (h : Host) :
    (h.changePeers codec wgFails c current).config =
      ⟨h.address, h.rules, removed c.peersRemoved (added current c.peersAdded h.configured)⟩ := by
  have hadd : ∀ (peers : List Peer) (h : Host),
      (peers.foldl (fun h peer =>
        if peer.publicKey = current.publicKey then h else (h.addPeer codec peer).2) h).config =
      ⟨h.address, h.rules, added current peers h.configured⟩ := by
    intro peers
    induction peers with
    | nil => exact fun h => rfl
    | cons peer peers ih =>
      intro h
      rw [List.foldl_cons, ih, added_cons]
      split_ifs <;> rfl
  have hremove : ∀ (peers : List Peer) (h : Host),
      (peers.foldl (fun h peer => h.removePeer codec wgFails peer) h).config =
      ⟨h.address, h.rules, removed peers h.configured⟩ := by
    intro peers
    induction peers with
    | nil => exact fun h => rfl
    | cons peer peers ih =>
      intro h
      rw [List.foldl_cons, ih]
      rfl
  rw [changePeers, hremove]
  have hadded := hadd c.peersAdded h
  generalize c.peersAdded.foldl _ h = h' at hadded ⊢
  obtain ⟨haddress, hrules, hconfigured⟩ := Config.mk.inj hadded
  rw [haddress, hrules, hconfigured]

theorem changeAddress_fst :
    (h.changeAddress c current).1.address = current.address ∧
      (h.changeAddress c current).1.publicKey = current.publicKey := by
  unfold changeAddress
  by_cases hchanged : c.addressChanged = true
  · rw [if_pos hchanged]
    split <;> exact ⟨rfl, rfl⟩
  · rw [if_neg hchanged]
    exact ⟨rfl, rfl⟩

theorem changeAddress_snd :
    (h.changeAddress c current).2 = if c.DropsAll current then h.removeAllPeers else h := by
  unfold changeAddress DetailsInfo.DropsAll
  by_cases hchanged : c.addressChanged = true
  · rw [if_pos hchanged]
    split
    · rename_i hnone
      by_cases hleft : c.networkLeft = [] <;> simp [hchanged, hnone, hleft]
    · rename_i address hsome
      simp [hsome]
  · simp [hchanged]

/-- The peer of the message keeps its address. -/
theorem address_applyChanges (changes : Option DetailsInfo) :
    (h.applyChanges codec wgFails changes current).1.address = current.address := by
  cases changes with
  | none => rfl
  | some c =>
    simp only [applyChanges]
    split_ifs
    · exact changeAddress_fst.1
    · rfl

/-- What changes do to the configuration. -/
theorem config_applyChanges (codec : KeyCodec) (wgFails : Bool) (current : Peer) (h : Host)
    (hchanges : c.hasChanges = true) :
    (h.applyChanges codec wgFails (some c) current).2.config =
      ⟨h.address, h.rules, removed c.peersRemoved (added current c.peersAdded
        (if c.DropsAll current then fun _ => none else h.configured))⟩ := by
  have hadded : added (h.changeAddress c current).1 = added current := by
    unfold added
    rw [changeAddress_fst.2]
  simp only [applyChanges, if_pos hchanges]
  rw [config_changePeers, hadded, changeAddress_snd]
  by_cases hleft : c.DropsAll current
  · rw [if_pos hleft, if_pos hleft]
    rfl
  · rw [if_neg hleft, if_neg hleft]

/-- Changes that do not take effect. -/
theorem applyChanges_of_not_touches {changes : Option DetailsInfo}
    (hnot : ∀ c, changes = some c → ¬ c.Touches current) :
    (h.applyChanges codec wgFails changes current).2.config = h.config := by
  cases changes with
  | none => rfl
  | some c =>
    by_cases hchanges : c.hasChanges = true
    · have hnot := hnot c rfl
      rw [DetailsInfo.Touches, not_and, not_or, not_or, not_not] at hnot
      obtain ⟨hleft, hadded, hremoved⟩ := hnot hchanges
      push Not at hadded
      rw [config_applyChanges codec wgFails current h hchanges, hremoved, added_of_own _ hadded,
        if_neg hleft]
      rfl
    · simp only [applyChanges, if_neg hchanges]

/-- Changes that take effect do so on some nodes: there is a set of peers that they do not leave
as it is. -/
theorem exists_ne_of_touches (htouches : c.Touches current) :
    ∃ m : String → Option Peer, removed c.peersRemoved (added current c.peersAdded
      (if c.DropsAll current then fun _ => none else m)) ≠ m := by
  obtain ⟨-, htouches⟩ := htouches
  cases hpeers : c.peersRemoved with
  | cons peer peers =>
    -- a node that has every peer loses one
    refine ⟨fun _ => some {}, fun hsame => ?_⟩
    have hnone := removed_eq_none (peer :: peers) (added current c.peersAdded
      (if c.DropsAll current then fun _ => none else fun _ => some {}))
      (.inr ⟨peer, List.mem_cons_self, rfl⟩)
    rw [hsame] at hnone
    cases hnone
  | nil =>
    by_cases hadds : ∃ peer ∈ c.peersAdded, peer.publicKey ≠ current.publicKey
    · -- a node that has no peer gets one
      obtain ⟨peer, hpeer, hkey⟩ := hadds
      refine ⟨fun _ => none, fun hsame => ?_⟩
      have hsome := isSome_added current c.peersAdded (fun _ => none)
        (.inr ⟨peer, hpeer, hkey, rfl⟩)
      rw [ite_self] at hsame
      have hnone : added current c.peersAdded (fun _ => none) peer.appId = none :=
        congrFun hsame peer.appId
      rw [hnone] at hsome
      cases hsome
    · have hleft : c.DropsAll current := by
        rcases htouches with hleft | hadded | hremoved
        · exact hleft
        · exact absurd hadded hadds
        · exact absurd hpeers hremoved
      push Not at hadds
      refine ⟨fun _ => some {}, fun hsame => ?_⟩
      rw [if_pos hleft, added_of_own _ hadds] at hsame
      cases congrFun hsame ""

/-! ## The whole configuration -/

/-- Adding remote peers concerns the peers only, and what was there stays. -/
theorem config_applyRemotePeers :
    (h.applyRemotePeers codec peers).2.address = h.address ∧
      (h.applyRemotePeers codec peers).2.rules = h.rules ∧
      ∀ appId, (h.configured appId).isSome →
        ((h.applyRemotePeers codec peers).2.configured appId).isSome := by
  induction peers generalizing h with
  | nil => exact ⟨rfl, rfl, fun _ hsome => hsome⟩
  | cons peer peers ih =>
    have hsome : ∀ appId, (h.configured appId).isSome →
        ((h.addPeer codec peer).2.configured appId).isSome := by
      intro appId happ
      by_cases heq : appId = peer.appId
      · simp [addPeer, heq]
      · simpa [addPeer, heq] using happ
    rw [applyRemotePeers]
    split
    · rename_i err next hadd
      obtain rfl : (h.addPeer codec peer).2 = next := congrArg Prod.snd hadd
      exact ⟨rfl, rfl, hsome⟩
    · rename_i next hadd
      obtain rfl : (h.addPeer codec peer).2 = next := congrArg Prod.snd hadd
      obtain ⟨haddress, hrules, hkept⟩ := ih
      exact ⟨haddress, hrules, fun appId happ => hkept appId (hsome appId happ)⟩

theorem applyCurrent_of_address_none (hnone : current.address = none)
    (answers : Node.Provisioned) : h.applyCurrent codec answers current = (.ok (), h) := by
  rw [applyCurrent, hnone]

variable {msg : PushedMessage}

/-- With everything missing nothing is configured. -/
theorem applyFullConfig_of_nothing (hnone : current.address = none)
    (hpeers : msg.computedPeers = []) (hrules : msg.computedRules = none)
    (answers : Node.Provisioned) : h.applyFullConfig codec answers msg current = (.ok (), h) := by
  rw [applyFullConfig, applyCurrent_of_address_none hnone, hpeers, hrules]
  rfl

/-- The state that `HandleEvent` leaves. -/
theorem handleEvent_snd (conditions : Conditions) (hcurrent : msg.current = some current) :
    (h.handleEvent codec conditions msg).2 =
      ((h.applyChanges codec conditions.trouble.wgFails msg.changes current).2.applyFullConfig
        codec conditions.answers msg
        (h.applyChanges codec conditions.trouble.wgFails msg.changes current).1).2 := by
  simp only [handleEvent, hcurrent]
  split
  · rename_i hresult
    rw [hresult]
  · rename_i hresult
    rw [hresult]

theorem handleEvent_of_not_configures (hnot : ¬ msg.Configures) (conditions : Conditions) :
    (h.handleEvent codec conditions msg).2.config = h.config := by
  cases hcurrent : msg.current with
  | none => simp only [handleEvent, hcurrent]
  | some current =>
    rw [PushedMessage.Configures, not_exists] at hnot
    have hnot := hnot current
    simp only [hcurrent, true_and, not_or, not_exists, not_and, ne_eq, not_not,
      Option.not_isSome_iff_eq_none] at hnot
    obtain ⟨haddress, hpeers, hrules, hchanges⟩ := hnot
    rw [handleEvent_snd conditions hcurrent,
      applyFullConfig_of_nothing ((address_applyChanges _).trans haddress) hpeers hrules]
    exact applyChanges_of_not_touches hchanges

/-- A packet that carries no such message leaves the configuration alone. -/
theorem config_deliver {d : Delivery} (hnot : ¬ d.Configures) (conditions : Conditions) :
    (h.deliver codec (d, conditions)).config = h.config := by
  rw [deliver_eq]
  cases hdecoded : d.decoded with
  | none => rfl
  | some signal =>
    have hsignal : ¬ signal.Configures := fun hconf => hnot ⟨signal, hdecoded, hconf⟩
    cases signal with
    | message content =>
      simp only [onMessage, handle]
      split_ifs
      · cases content with
        | none => rfl
        | some msg => exact handleEvent_of_not_configures hsignal conditions
      · rfl
    | packet pk => rfl
    | undirected senderId =>
      simp only [onMessage, handle]
      split <;> rfl

/-! ## Messages of the controller

They have no section of changes, and on the node inside the host they do what
`Node.handleEvent` does. -/

theorem node_applyRemotePeers (codec : KeyCodec) (peers : List Peer) (h : Host) :
    ((h.applyRemotePeers codec peers).1, (h.applyRemotePeers codec peers).2.node) =
      h.node.applyRemotePeers codec peers := by
  induction peers generalizing h with
  | nil => rfl
  | cons peer peers ih =>
    have hadd : h.addPeer codec peer = ((h.node.addPeer codec peer).1, (h.addPeer codec peer).2) :=
      rfl
    have hnode : (h.addPeer codec peer).2.node = (h.node.addPeer codec peer).2 := rfl
    rw [applyRemotePeers, Node.applyRemotePeers, hadd]
    generalize (h.addPeer codec peer).2 = next at hnode
    cases hresult : h.node.addPeer codec peer with
    | mk result node =>
      rw [hresult] at hnode
      cases result with
      | error err => exact Prod.ext rfl hnode
      | ok _ =>
        obtain rfl : next.node = node := hnode
        exact ih next

theorem node_applyCurrent (codec : KeyCodec) (answers : Node.Provisioned) (current : Peer)
    (h : Host) :
    ((h.applyCurrent codec answers current).1, (h.applyCurrent codec answers current).2.node) =
      h.node.applyCurrent codec answers current := by
  rw [applyCurrent, Node.applyCurrent]
  cases current.address with
  | none => rfl
  | some address => cases answers.applyIP <;> rfl

variable (answers : Node.Provisioned)

/-- `Host.handleEvent` is `Node.handleEvent` with the configuration added. -/
theorem node_handleEvent (msg : Message) :
    ((h.handleEvent codec { answers := answers } (.ofMessage msg)).1,
      (h.handleEvent codec { answers := answers } (.ofMessage msg)).2.node) =
      h.node.handleEvent codec answers msg := by
  have hcurrent := node_applyCurrent codec answers msg.current h
  simp only [handleEvent, PushedMessage.ofMessage, applyChanges, applyFullConfig,
    Node.handleEvent, Node.applyFullConfig]
  cases happly : h.applyCurrent codec answers msg.current with
  | mk result next =>
    rw [happly] at hcurrent
    rw [← hcurrent]
    cases result with
    | error err => rfl
    | ok _ =>
      have hpeers := node_applyRemotePeers codec msg.computedPeers next
      dsimp only
      cases hremote : next.applyRemotePeers codec msg.computedPeers with
      | mk result last =>
        rw [hremote] at hpeers
        rw [← hpeers]
        cases result with
        | error err => rfl
        | ok _ =>
          simp only [applyFirewallRules]
          cases answers.provision <;> rfl

/-! ## Messages that configure do so on some node

Everything goes well here: the provisioner reports no error. -/

theorem frame_applyFirewallRules (rules : Option FirewallRule) :
    (h.applyFirewallRules answers rules).2.address = h.address ∧
      (h.applyFirewallRules answers rules).2.configured = h.configured := by
  unfold applyFirewallRules
  cases rules with
  | none => exact ⟨rfl, rfl⟩
  | some rules => cases answers.provision <;> exact ⟨rfl, rfl⟩

/-- The state that `ApplyFullConfig` leaves, once the node's own address is dealt with. -/
theorem applyFullConfig_snd (msg : PushedMessage) :
    (h.applyFullConfig codec answers msg current).2 = (h.applyCurrent codec answers current).2 ∨
    (h.applyFullConfig codec answers msg current).2 =
      ((h.applyCurrent codec answers current).2.applyRemotePeers codec msg.computedPeers).2 ∨
    (h.applyFullConfig codec answers msg current).2 =
      (((h.applyCurrent codec answers current).2.applyRemotePeers codec
        msg.computedPeers).2.applyFirewallRules answers msg.computedRules).2 := by
  rw [applyFullConfig]
  split
  · rename_i hcurrent
    rw [hcurrent]
    exact .inl rfl
  · rename_i hcurrent
    rw [hcurrent]
    split
    · rename_i hpeers
      rw [hpeers]
      exact .inr (.inl rfl)
    · rename_i hpeers
      rw [hpeers]
      exact .inr (.inr rfl)

theorem address_applyFullConfig (msg : PushedMessage) {address : String}
    (haddress : current.address = some address) :
    (h.applyFullConfig codec {} msg current).2.address = some address := by
  have hcurrent : (h.applyCurrent codec {} current).2.address = some address := by
    rw [applyCurrent, haddress]
    rfl
  rcases applyFullConfig_snd {} msg with hsnd | hsnd | hsnd
  · rw [hsnd, hcurrent]
  · rw [hsnd, (config_applyRemotePeers _).1, hcurrent]
  · rw [hsnd, (frame_applyFirewallRules _ _).1, (config_applyRemotePeers _).1, hcurrent]

theorem isSome_applyFullConfig {peer : Peer} {peers : List Peer} (hnone : current.address = none)
    (hpeers : msg.computedPeers = peer :: peers) :
    ((h.applyFullConfig codec {} msg current).2.configured peer.appId).isSome := by
  have hadded : ((h.applyRemotePeers codec (peer :: peers)).2.configured peer.appId).isSome := by
    have hsome : ((h.addPeer codec peer).2.configured peer.appId).isSome := by
      simp [addPeer]
    rw [applyRemotePeers]
    split
    · rename_i hadd
      rwa [hadd] at hsome
    · rename_i hadd
      rw [hadd] at hsome
      exact (config_applyRemotePeers peers).2.2 _ hsome
  rw [applyFullConfig, applyCurrent_of_address_none hnone, hpeers]
  dsimp only
  split
  · rename_i hresult
    rwa [hresult] at hadded
  · rename_i hresult
    rw [hresult] at hadded
    rwa [(frame_applyFirewallRules _ _).2]

/-- Some configuration does not survive a message that configures something. -/
theorem exists_config_of_configures (codec : KeyCodec) (hconf : msg.Configures) :
    ∃ config : Config, ∀ h : Host, h.config = config →
      (h.handleEvent codec {} msg).2.config ≠ config := by
  obtain ⟨current, hcurrent, hconf⟩ := hconf
  cases haddress : current.address with
  | some address =>
    -- a node without an address gets one
    refine ⟨⟨none, none, fun _ => none⟩, fun h _ hsame => ?_⟩
    have hafter : (h.handleEvent codec {} msg).2.address = some address := by
      rw [handleEvent_snd {} hcurrent]
      exact address_applyFullConfig msg ((address_applyChanges _).trans haddress)
    cases hafter.symm.trans (congrArg Config.address hsame)
  | none =>
    have hnone : ∀ h : Host, (h.applyChanges codec false msg.changes current).1.address = none :=
      fun h => (address_applyChanges _).trans haddress
    cases hpeers : msg.computedPeers with
    | cons peer peers =>
      -- a node without peers gets one
      refine ⟨⟨none, none, fun _ => none⟩, fun h _ hsame => ?_⟩
      have hafter : ((h.handleEvent codec {} msg).2.configured peer.appId).isSome := by
        rw [handleEvent_snd {} hcurrent]
        exact isSome_applyFullConfig (hnone h) hpeers
      have hbefore : (h.handleEvent codec {} msg).2.configured peer.appId = none :=
        congrFun (congrArg Config.configured hsame) peer.appId
      rw [hbefore] at hafter
      cases hafter
    | nil =>
      cases hrules : msg.computedRules with
      | some rules =>
        -- a node without rules gets some
        refine ⟨⟨none, none, fun _ => none⟩, fun h _ hsame => ?_⟩
        have hafter : (h.handleEvent codec {} msg).2.rules = some rules := by
          rw [handleEvent_snd {} hcurrent, applyFullConfig,
            applyCurrent_of_address_none (hnone h), hpeers, hrules]
          rfl
        cases hafter.symm.trans (congrArg Config.rules hsame)
      | none =>
        -- only the changes are left
        rw [haddress, hpeers, hrules] at hconf
        obtain ⟨c, hchanges, htouches⟩ : ∃ c, msg.changes = some c ∧ c.Touches current := by
          simpa using hconf
        obtain ⟨m, hne⟩ := exists_ne_of_touches htouches
        refine ⟨⟨none, none, m⟩, fun h hconfig hsame => hne ?_⟩
        rw [handleEvent_snd {} hcurrent, applyFullConfig_of_nothing (hnone h) hpeers hrules,
          hchanges, config_applyChanges codec _ current h htouches.1] at hsame
        have hconfigured : h.configured = m := congrArg Config.configured hconfig
        rw [hconfigured] at hsame
        exact congrArg Config.configured hsame

/-! ## Sequences of packets -/

/-- On every node, whatever else happens, no packet of the sequence changes the configuration. -/
def KeepsConfig (codec : KeyCodec) (packets : List Delivery) : Prop :=
  ∀ (h : Host) (steps : List (Delivery × Conditions)), steps.map Prod.fst = packets →
    AlongSteps (Host.deliver codec) (fun h d => (h.deliver codec d).config = h.config) h steps

theorem not_configures_of_keepsConfig {packets : List Delivery} (hkeeps : KeepsConfig codec packets)
    {d : Delivery} (hd : d ∈ packets) : ¬ d.Configures := by
  rintro ⟨signal, hdecoded, hconf⟩
  -- only messages configure anything
  obtain ⟨msg, rfl⟩ : ∃ msg, signal = .message (some msg) := by
    cases signal with
    | message content =>
      cases content with
      | none => exact hconf.elim
      | some msg => exact ⟨msg, rfl⟩
    | packet pk | undirected senderId => exact hconf.elim
  obtain ⟨config, hchanges⟩ := exists_config_of_configures codec hconf
  obtain ⟨before, after, rfl⟩ := List.append_of_mem hd
  -- the packets before it are delivered to a node with that configuration
  let h : Host :=
    { node := { current := {}, localId := ⟨"", 0⟩ }
      address := config.address, rules := config.rules, configured := config.configured }
  have hrun := hkeeps h ((before ++ d :: after).map (·, {})) (by simp [comp_def])
  rw [List.map_append, alongSteps_append] at hrun
  obtain ⟨hbefore, hstep, -⟩ := hrun
  have hconfig : ((before.map (·, {})).foldl (deliver codec) h).config = config :=
    (hbefore.invariant (I := fun h => h.config = config)
      (fun _ _ hI hP => ⟨trivial, hP.trans hI⟩) rfl).2
  have hdeliver : ∀ h : Host, h.deliver codec (d, {}) = (h.handleEvent codec {} msg).2 := by
    intro h
    rw [deliver_eq, hdecoded]
    rfl
  rw [hdeliver, hconfig] at hstep
  exact hchanges _ hconfig hstep

end

/-- The packets leave the configuration of every node alone if and only if none of them carries a
message that configures anything. -/
theorem config_kept_iff (codec : KeyCodec) (packets : List Delivery) :
    KeepsConfig codec packets ↔ ∀ d ∈ packets, ¬ d.Configures := by
  refine ⟨fun hkeeps d => not_configures_of_keepsConfig hkeeps, fun hnot h steps hsteps => ?_⟩
  apply alongSteps_of_forall
  rintro ⟨d, conditions⟩ hstep h
  have hd : d ∈ packets := by
    rw [← hsteps]
    exact List.mem_map_of_mem hstep
  exact config_deliver (hnot d hd) conditions

/-! ## A peer that configures another one -/

namespace Forgery

open Comeback (codec a b fresh)

/-- A configuration message as any peer can write one. -/
def message : PushedMessage where
  current := some { a with address := some "10.9.9.9" }
  computedPeers := [b]
  computedRules := some {}

/-- A node that has never been configured. -/
def host : Host where
  node := fresh

def packet : Delivery := .nats (some (.message (some message)))

/-- The node once the packet has come in. -/
def configuredHost : Host := host.deliver codec (packet, {})

end Forgery

open Forgery Comeback in
/-- A node accepts the message from whoever sends it: afterwards it has the address, the peer and
the empty rules of the message. -/
theorem peer_configures_node :
    host.address = none ∧ configuredHost.address = some "10.9.9.9" ∧
      (host.configured "b").isNone ∧ (configuredHost.configured "b").isSome ∧
      host.rules = none ∧ configuredHost.rules = some {} ∧
      ¬ KeepsConfig codec [packet] := by
  have haddress : configuredHost.address = some "10.9.9.9" := by decide +kernel
  have hpeer : (configuredHost.configured "b").isSome := by decide +kernel
  have hrules : configuredHost.rules = some {} := by decide +kernel
  refine ⟨rfl, haddress, rfl, hpeer, rfl, hrules, fun hkeeps => ?_⟩
  have hstep : configuredHost.config = host.config := (hkeeps host [(packet, {})] rfl).1
  cases haddress.symm.trans (congrArg Config.address hstep)

end Wireflow.Agent
