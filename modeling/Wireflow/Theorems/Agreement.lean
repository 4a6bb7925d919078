/-
# Peer list and firewall rules agree

A message names the peers of its policies twice: once in `ComputedPeers`, resolved in
memory over the peers of the network, and once in the firewall rules, resolved by
listing peers by label and looking their names up in an address table. For messages
built from one state the two are the same set of addresses, and what else the rules
contain comes from IP blocks.
-/

import Wireflow.Theorems.Tunnels

namespace Wireflow.Controller

open Go (GoMap)
open Go.Strings
open Semantics
open Wireflow.Api Wireflow.Infra

/-- The rules of a chain before the default-deny tail. -/
def Direction.nonTail (dir : Direction) (fw : FirewallRule) : List TrafficRule :=
  (dir.chainOf fw).dropLast

/-- The address stands in a non-tail rule because a built rule carries the name of the
peer that has it. -/
def PeerDerived (m : Message) (a : String) : Prop :=
  ∃ dir : Direction, ∃ rule ∈ rulesOf dir m.policies,
    (∃ name ∈ rule.peerNames, name ≠ m.current.name ∧
      (peerIPByName m.network.peers).lookup name = some a) ∧
    ∃ r ∈ dir.nonTail m.computedRules,
      r.peers = [a] ∧ r.port = rule.port ∧ r.protocol = rule.protocol

/-- The address is that of an IP block in a policy of the peer's network. -/
def FromIPBlock (s : Store) (current : LatticePeer) (a : String) : Prop :=
  ∃ policy, PolicyOf s current policy ∧ ∃ selection ∈ selectionsOf policy,
    ∃ block, selection.ipBlock = some block ∧ block.cidr = a

/-- Allocated addresses are not empty and carry no CIDR suffix. -/
def PlainAddresses (s : Store) (ns : String) : Prop :=
  ∀ q, PeerIn s ns q → ∀ a, q.status.allocatedAddress = some a →
    a ≠ "" ∧ containsChar a '/' = false

section Agreement

variable {lib : SelectorLibrary} {s : Store} {current : LatticePeer}
  {snapshot : PeerStateSnapshot} {orders : MapOrders} {m : Message}

/-- The decisions of one direction of a message. -/
def decidedIn (m : Message) (dir : Direction) : Decisions :=
  decisions (peerIPByName m.network.peers) m.current.name (rulesOf dir m.policies)

variable {dir : Direction} {a : String} {p : Infra.Peer}

/-- A null selector selects nobody. -/
theorem isSome_of_selects (hnil : lib.NilMatchesNothing) {selector : Option LabelSelector}
    {labels : Labels} (h : Selects lib selector labels) : selector.isSome := by
  cases selector with
  | some selector => rfl
  | none =>
    obtain ⟨sel, hsel, hno⟩ := hnil labels
    rw [Selects, selects, hsel, Except.ok.injEq, hno] at h
    cases h

/-- Names in the built rules, by the selections. -/
theorem built_name_iff {sources : List LatticePolicy} {policies : List Policy}
    (hbuilt : List.Forall₂ (BuiltFrom lib s) sources policies) (dir : Direction) (name : String) :
    (∃ rule ∈ rulesOf dir policies, name ∈ rule.peerNames) ↔
      ∃ src ∈ sources, ∃ selection ∈ dir.selections src, FindsName lib s src selection name := by
  induction hbuilt with
  | nil => simp [rulesOf]
  | cons hhead _ ih =>
    rw [List.exists_mem_cons_iff, ← ih, ← (hhead dir).names name]
    simp only [rulesOf, List.flatMap_cons, List.mem_append, or_and_right, exists_or]

/-- CIDRs in the built rules come from IP blocks. -/
theorem built_cidr {sources : List LatticePolicy} {policies : List Policy}
    (hbuilt : List.Forall₂ (BuiltFrom lib s) sources policies) {rule : Rule}
    (hrule : rule ∈ rulesOf dir policies) {cidr : String} (hcidr : cidr ∈ rule.cidrs) :
    ∃ src ∈ sources, ∃ selection ∈ dir.selections src,
      ∃ block, selection.ipBlock = some block ∧ block.cidr = cidr := by
  induction hbuilt with
  | nil => simp [rulesOf] at hrule
  | cons hhead _ ih =>
    rw [List.exists_mem_cons_iff]
    rw [rulesOf, List.flatMap_cons, List.mem_append] at hrule
    rcases hrule with hfirst | hrest
    · exact .inl ((hhead dir).cidrs rule hfirst cidr hcidr)
    · exact .inr (ih hrest)

variable (hsnapshot : SnapshotOf lib s current snapshot)
  (hm : Assembled lib current snapshot orders m)

include hm

theorem mem_nonTail {r : TrafficRule} :
    r ∈ dir.nonTail m.computedRules ↔
      ∃ k a, (decidedIn m dir).lookup k = some a ∧ r = trafficRule dir (k, a) := by
  rw [Direction.nonTail, chainOf_evaluate hm.computedRules, evaluateChain, chain,
    List.dropLast_concat, List.mem_map]
  simp only [Prod.exists, GoMap.mem_range, decidedIn, @eq_comm _ r]

include hsnapshot

/-- A peer of the message, back in the store. -/
theorem exists_stored (hp : p ∈ m.network.peers) :
    ∃ q, PeerIn s current.metadata.ns q ∧ p.name = q.metadata.name ∧
      p.labels = q.metadata.labels ∧ p.address = q.status.allocatedAddress ∧
      ∃ network, joinedNetwork s current = some network ∧
        q.metadata.labels.lookup (networkLabelKey network.metadata.name) = some "true" := by
  rw [hm.network] at hp
  obtain ⟨q, hq, -, order, rfl⟩ := exists_of_mem_networkOf hp
  obtain ⟨network, hnetwork, hin, hlabel⟩ := (hsnapshot.peers q).mp hq
  exact ⟨q, hin, rfl, rfl, rfl, network, hnetwork, hlabel⟩

/-- A name identifies a peer of the message. -/
theorem address_eq_of_name {p p' : Infra.Peer} (hp : p ∈ m.network.peers)
    (hp' : p' ∈ m.network.peers) (hname : p.name = p'.name) :
    p.address = p'.address ∧ p.labels = p'.labels := by
  obtain ⟨q, hq, hqname, hqlabels, hqaddress, -⟩ := exists_stored hsnapshot hm hp
  obtain ⟨q', hq', hqname', hqlabels', hqaddress', -⟩ := exists_stored hsnapshot hm hp'
  have hsame : q = q' := hq.eq_of_name hq' (by rw [← hqname, ← hqname', hname])
  rw [hqaddress, hqaddress', hqlabels, hqlabels', hsame]
  exact ⟨rfl, rfl⟩

theorem plain_of_mem (hplain : PlainAddresses s current.metadata.ns)
    (hp : p ∈ m.network.peers) (ha : p.address = some a) : a ≠ "" ∧ cleanIP p.address = a := by
  obtain ⟨q, hq, -, -, hqaddress, -⟩ := exists_stored hsnapshot hm hp
  obtain ⟨hne, hslash⟩ := hplain q hq a (hqaddress ▸ ha)
  exact ⟨hne, by simp [ha, cleanIP, hslash]⟩

/-- The address table is the address of the peer of that name. -/
theorem lookup_table_iff (hplain : PlainAddresses s current.metadata.ns) {name a : String} :
    (peerIPByName m.network.peers).lookup name = some a ↔
      ∃ p ∈ m.network.peers, p.name = name ∧ p.address = some a := by
  have hforward : ∀ b, (peerIPByName m.network.peers).lookup name = some b →
      ∃ p ∈ m.network.peers, p.name = name ∧ p.address = some b := by
    intro b hlookup
    obtain ⟨p, hp, hname, haddress, rfl⟩ := exists_of_lookup_peerIPByName hlookup
    obtain ⟨c, hc⟩ := Option.isSome_iff_exists.mp haddress
    obtain ⟨-, hclean⟩ := plain_of_mem hsnapshot hm hplain hp hc
    exact ⟨p, hp, hname, by rw [hclean, hc]⟩
  refine ⟨hforward a, ?_⟩
  -- there is an entry, and it belongs to the only peer of that name
  rintro ⟨p, hp, rfl, ha⟩
  have hmem := mem_peerIPByName hp (by rw [ha]; rfl)
  rw [← AList.lookup_isSome] at hmem
  obtain ⟨b, hb⟩ := Option.isSome_iff_exists.mp hmem
  obtain ⟨p', hp', hname', hb'⟩ := hforward b hb
  have hsame := (address_eq_of_name hsnapshot hm hp' hp hname').1
  rw [ha, hb', Option.some_inj] at hsame
  rw [hb, hsame]

/-! ### The peer list -/

/-- Addresses of the peer list, by the policies. -/
theorem computed_address_iff :
    (∃ p ∈ m.computedPeers, p.address = some a) ↔
      ∃ policy ∈ snapshot.policies, ∃ p ∈ m.network.peers, p.name ≠ m.current.name ∧
        p.address = some a ∧ NamesPeer lib policy m.current.labels p.labels := by
  constructor
  · rintro ⟨p, hp, ha⟩
    have hpeer := mem_peers_of_mem_getComputedPeers hm.computedPeers hp
    obtain ⟨hne, policy, hpolicy, p', hp', hname, hnames⟩ :=
      (mem_getComputedPeers hm.computedPeers p.name).mp ⟨p, hp, rfl⟩
    rw [(address_eq_of_name hsnapshot hm hp' hpeer hname).2] at hnames
    exact ⟨policy, hpolicy, p, hpeer, hne, ha, hnames⟩
  · rintro ⟨policy, hpolicy, p, hp, hne, ha, hnames⟩
    obtain ⟨p', hp', hname⟩ := (mem_getComputedPeers hm.computedPeers p.name).mpr
      ⟨hne, policy, hpolicy, p, hp, rfl, hnames⟩
    have hpeer := mem_peers_of_mem_getComputedPeers hm.computedPeers hp'
    exact ⟨p', hp', (address_eq_of_name hsnapshot hm hpeer hp hname).1.trans ha⟩

/-! ### The rules -/

/-- Addresses derived from names, by the selections. -/
theorem peerDerived_iff (hplain : PlainAddresses s current.metadata.ns)
    (hbuilt : List.Forall₂ (BuiltFrom lib s) snapshot.policies m.policies) :
    PeerDerived m a ↔ ∃ src ∈ snapshot.policies, ∃ selection ∈ selectionsOf src,
      ∃ p ∈ m.network.peers, p.name ≠ m.current.name ∧ p.address = some a ∧
        FindsName lib s src selection p.name := by
  constructor
  · rintro ⟨dir, rule, hrule, ⟨name, hname, hne, hlookup⟩, -⟩
    obtain ⟨src, hsrc, selection, hselection, hfinds⟩ :=
      (built_name_iff hbuilt dir name).mp ⟨rule, hrule, hname⟩
    obtain ⟨p, hp, rfl, ha⟩ := (lookup_table_iff hsnapshot hm hplain).mp hlookup
    exact ⟨src, hsrc, selection, mem_selectionsOf.mpr ⟨dir, hselection⟩, p, hp, hne, ha, hfinds⟩
  · rintro ⟨src, hsrc, selection, hselection, p, hp, hne, ha, hfinds⟩
    obtain ⟨dir, hdir⟩ := mem_selectionsOf.mp hselection
    obtain ⟨rule, hrule, hname⟩ :=
      (built_name_iff hbuilt dir p.name).mpr ⟨src, hsrc, selection, hdir, hfinds⟩
    have hlookup := (lookup_table_iff hsnapshot hm hplain).mpr ⟨p, hp, rfl, ha⟩
    obtain ⟨hnonempty, -⟩ := plain_of_mem hsnapshot hm hplain hp ha
    have hdecided : ((decidedIn m dir).lookup ⟨a, rule.port, rule.protocol⟩).isSome :=
      isSome_lookup_decisions.mpr ⟨rule, hrule,
        mem_resolveRulePeers.mpr (.inl ⟨p.name, hname, hne, hlookup, hnonempty⟩), rfl, rfl⟩
    obtain ⟨action, haction⟩ := Option.isSome_iff_exists.mp hdecided
    exact ⟨dir, rule, hrule, ⟨p.name, hname, hne, hlookup⟩, _,
      (mem_nonTail hm).mpr ⟨_, action, haction, rfl⟩, rfl, rfl, rfl⟩

/-- Whatever stands in a rule is derived from a name or comes from an IP block. -/
theorem peerDerived_or_fromIPBlock
    (hbuilt : List.Forall₂ (BuiltFrom lib s) snapshot.policies m.policies) {r : TrafficRule}
    (hr : r ∈ dir.nonTail m.computedRules) (ha : a ∈ r.peers) :
    PeerDerived m a ∨ FromIPBlock s current a := by
  obtain ⟨k, action, hlookup, rfl⟩ := (mem_nonTail hm).mp hr
  obtain rfl : a = k.peer := List.mem_singleton.mp ha
  obtain ⟨rule, hrule, ⟨hkey, hport, hprotocol⟩, -⟩ := exists_rule_of_lookup_decisions hlookup
  rcases mem_resolveRulePeers.mp hkey with ⟨name, hname, hne, htable, -⟩ | ⟨hcidr, -⟩
  · exact .inl ⟨dir, rule, hrule, ⟨name, hname, hne, htable⟩, _, hr, rfl, hport, hprotocol⟩
  · obtain ⟨src, hsrc, selection, hselection, hblock⟩ := built_cidr hbuilt hrule hcidr
    obtain ⟨-, hof, -⟩ := (hsnapshot.policies src).mp hsrc
    exact .inr ⟨src, hof, selection, mem_selectionsOf.mpr ⟨dir, hselection⟩, hblock⟩

/-! ### The two together -/

/-- Listing by label finds a peer of the message exactly when the selector matches its
labels in memory. -/
theorem findsName_iff (hnil : lib.NilMatchesNothing) {src : LatticePolicy}
    (hsrc : src ∈ snapshot.policies) (selection : PeerSelection) (hp : p ∈ m.network.peers) :
    FindsName lib s src selection p.name ↔ Selects lib selection.peerSelector p.labels := by
  obtain ⟨q, hq, hname, hlabels, -, network, hnetwork, hlabel⟩ := exists_stored hsnapshot hm hp
  obtain ⟨-, ⟨hns, -, hpolicy⟩, -⟩ := (hsnapshot.policies src).mp hsrc
  obtain ⟨-, hspec⟩ := key_of_joinedNetwork hnetwork
  rw [hname, hlabels]
  constructor
  · rintro ⟨q', hq', -, hselects, -, hname'⟩
    rw [hns] at hq'
    rwa [hq'.eq_of_name hq hname'] at hselects
  · intro hselects
    -- the peer carries the label of the network the policy is about
    have hcarries : carries q.metadata.labels (networkRequirement src.network) = true := by
      rw [hpolicy, hspec, Option.getD_some, networkRequirement]
      split_ifs
      · rfl
      · simp [carries, hlabel]
    exact ⟨q, hns.symm ▸ hq, isSome_of_selects hnil hselects, hselects, hcarries, rfl⟩

end Agreement

/-- **Peer list and rules agree.** In a message built from one state, the addresses that
names put into the rules are the addresses of the listed peers, every listed peer is
matched by a peer selector, and every other address in the rules is an IP block's. -/
theorem rules_agree_with_peers (lib : SelectorLibrary) (hnil : lib.NilMatchesNothing)
    (current : LatticePeer) (session : Session) (hsession : session.Faultless)
    (huid : DistinctUIDs session.world.store current.metadata.ns)
    (hvalid : ValidPolicies lib session.world.store current)
    (hplain : PlainAddresses session.world.store current.metadata.ns) :
    ∃ m, ((buildMessage lib current current.metadata.ns).run serve session).1 = .ok m ∧
      (∀ a, PeerDerived m a ↔ ∃ p ∈ m.computedPeers, p.address = some a) ∧
      (∀ dir : Direction, ∀ r ∈ dir.nonTail m.computedRules, ∀ a ∈ r.peers,
        PeerDerived m a ∨ FromIPBlock session.world.store current a) ∧
      (∀ p ∈ m.computedPeers, ∃ policy, PolicyOf session.world.store current policy ∧
        ∃ selection ∈ selectionsOf policy, selection.peerSelector.isSome ∧
          Selects lib selection.peerSelector p.labels) := by
  obtain ⟨m, snapshot, orders, hrun, hsnapshot, hm, hbuilt⟩ :=
    exists_message session hsession huid hvalid
  have hcurrent : m.current.labels = current.metadata.labels := by
    rw [hm.current]
    exact hsnapshot.labels
  refine ⟨m, hrun, fun a => ?_, fun dir r hr a ha => ?_, fun p hp => ?_⟩
  · -- both sides say: a policy of the snapshot has a selection for a peer with the address
    rw [peerDerived_iff hsnapshot hm hplain hbuilt, computed_address_iff hsnapshot hm]
    constructor
    · rintro ⟨src, hsrc, selection, hselection, p, hp, hne, ha, hfinds⟩
      have hselects := (findsName_iff hsnapshot hm hnil hsrc selection hp).mp hfinds
      obtain ⟨-, -, hsubject⟩ := (hsnapshot.policies src).mp hsrc
      exact ⟨src, hsrc, p, hp, hne, ha, hcurrent ▸ hsubject, selection, hselection, hselects⟩
    · rintro ⟨src, hsrc, p, hp, hne, ha, -, selection, hselection, hselects⟩
      have hfinds := (findsName_iff hsnapshot hm hnil hsrc selection hp).mpr hselects
      exact ⟨src, hsrc, selection, hselection, p, hp, hne, ha, hfinds⟩
  · exact peerDerived_or_fromIPBlock hsnapshot hm hbuilt hr ha
  · obtain ⟨-, policy, hpolicy, p', hp', hname, -, selection, hselection, hselects⟩ :=
      (mem_getComputedPeers hm.computedPeers p.name).mp ⟨p, hp, rfl⟩
    have hpeer := mem_peers_of_mem_getComputedPeers hm.computedPeers hp
    rw [(address_eq_of_name hsnapshot hm hp' hpeer hname).2] at hselects
    obtain ⟨-, hof, -⟩ := (hsnapshot.policies policy).mp hpolicy
    exact ⟨policy, hof, selection, hselection, isSome_of_selects hnil hselects, hselects⟩

namespace Pair

theorem plainAddresses (policy : LatticePolicy) :
    PlainAddresses (session policy).world.store db.metadata.ns := by
  have hall : ∀ e ∈ peers.objects.pairs, ∀ a ∈ e.2.status.allocatedAddress,
      a ≠ "" ∧ containsChar a '/' = false := by
    decide +kernel
  intro q hq a ha
  exact hall _ (GoMap.mem_pairs.mpr hq.2) a ha

end Pair

open Pair in
theorem rules_agree_with_peers_pair :
    ∃ m, ((buildMessage .matchLabelsOnly db "d").run serve (session (fromWeb "ALLOW"))).1 = .ok m ∧
      ∀ a, PeerDerived m a ↔ ∃ p ∈ m.computedPeers, p.address = some a := by
  obtain ⟨m, hm, hagree, -⟩ := rules_agree_with_peers .matchLabelsOnly
    (fun _ => ⟨_, rfl, rfl⟩) db (session (fromWeb "ALLOW")) (fun _ => rfl)
    (distinctUIDs _) (fun policy _ => valid policy) (plainAddresses _)
  exact ⟨m, hm, hagree⟩

end Wireflow.Controller
