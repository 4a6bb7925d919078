/-
# What a policy set lets through

The rule list of `Evaluate` is installed as a chain and read from the top. The
intended meaning is *allow priority with default deny*: a packet passes exactly
when some `ALLOW` rule, with its names resolved to addresses, matches it.

`Evaluate` gives `ALLOW` priority only among rules with literally the same
address, port and protocol. Two different keys may still match one packet (a host
inside an allowed CIDR, one port next to all ports), and then the emission order,
which is a map order, decides. `chain_meaning_iff` says exactly when the intended
meaning holds in every order; `deny_inside_allowed_block` is a packet for which it
does not.
-/

import Wireflow.Controller.PolicyEvaluator
import Wireflow.Semantics.FirstMatch

namespace Wireflow.Controller

open Go (GoMap Order)
open Go.Net (IP)
open Semantics
open Wireflow.Infra

/-! ## Packets and chains -/

/-- What a rule can look at: the other end, the protocol and the destination port. -/
structure Packet where
  remote : IP
  protocol : String
  port : Int

/-- An address or CIDR, as rules carry them, contains an address. -/
def addressContains (text : String) (ip : IP) : Bool :=
  match Go.Net.parseCIDR text with
  | .ok net => net.contains ip
  | .error _ =>
      match Go.Net.parseIP text with
      | some a => if a.to4.isSome then a.to4 == ip.to4 else a == ip
      | none => false

/-- A flow key matches a packet; port zero and the empty protocol mean any. -/
def RuleDecisionKey.matchesPacket (k : RuleDecisionKey) (pkt : Packet) : Bool :=
  addressContains k.peer pkt.remote && (k.protocol == "" || k.protocol == pkt.protocol) &&
    (k.port == 0 || k.port == pkt.port)

/-- A traffic rule matches a packet; no peers mean any. -/
def matchesPacket (r : TrafficRule) (pkt : Packet) : Bool :=
  (r.peers.isEmpty || r.peers.any (addressContains · pkt.remote)) &&
    (r.protocol == "" || r.protocol == pkt.protocol) && (r.port == 0 || r.port == pkt.port)

/-- The verdict of a rule list read as a first-match chain. -/
def chainAccepts (rules : List TrafficRule) (pkt : Packet) : Bool :=
  FirstMatch.accepts (matchesPacket · pkt) (fun r => r.action == "ACCEPT") rules

/-- Some `ALLOW` rule of the direction, resolved through the peer table, matches. -/
def AllowedBy (dir : Direction) (current : Infra.Peer) (network : Network)
    (policies : List Policy) (pkt : Packet) : Prop :=
  ∃ rule ∈ rulesOf dir policies, rule.action = "ALLOW" ∧
    ∃ k, HasKey (peerIPByName network.peers) current.name rule k ∧ k.matchesPacket pkt = true

/-- Every rule matching the packet does so under a key that some `ALLOW` rule has too. -/
def AllowCovers (dir : Direction) (current : Infra.Peer) (network : Network)
    (policies : List Policy) (pkt : Packet) : Prop :=
  ∀ rule ∈ rulesOf dir policies, ∀ k, HasKey (peerIPByName network.peers) current.name rule k →
    k.matchesPacket pkt = true →
      ∃ rule' ∈ rulesOf dir policies, rule'.action = "ALLOW" ∧
        HasKey (peerIPByName network.peers) current.name rule' k

/-! ## The chain in terms of decisions -/

theorem matchesPacket_trafficRule (dir : Direction) (k : RuleDecisionKey) (a : String)
    (pkt : Packet) : matchesPacket (trafficRule dir (k, a)) pkt = k.matchesPacket pkt := by
  simp [matchesPacket, trafficRule, RuleDecisionKey.matchesPacket]

section Meaning

variable {dir : Direction} {current : Infra.Peer} {network : Network} {policies : List Policy}
  {pkt : Packet}

/-- The decision map behind a chain. -/
abbrev decided (dir : Direction) (current : Infra.Peer) (network : Network)
    (policies : List Policy) : Decisions :=
  decisions (peerIPByName network.peers) current.name (rulesOf dir policies)

/-- The tail rejects, so the verdict is that of the decided flows in map order. -/
theorem chainAccepts_evaluateChain (orders : MapOrders) :
    chainAccepts (evaluateChain orders current network policies dir) pkt =
      FirstMatch.accepts (matchesPacket · pkt) (fun r => r.action == "ACCEPT")
        ((dir.order orders).visit
          ((decided dir current network policies).pairs.map (trafficRule dir))) := by
  rw [chainAccepts, evaluateChain, chain, FirstMatch.accepts_append_reject (by rfl),
    Order.visit_map]
  rfl

/-- A packet is allowed when a flow decided `ALLOW` matches it. -/
theorem allowedBy_iff : AllowedBy dir current network policies pkt ↔
    ∃ k, (decided dir current network policies).lookup k = some "ALLOW" ∧
      k.matchesPacket pkt = true := by
  constructor
  · rintro ⟨rule, hrule, haction, k, hkey, hmatch⟩
    exact ⟨k, lookup_decisions_allow.mpr ⟨rule, hrule, hkey, haction⟩, hmatch⟩
  · rintro ⟨k, hlookup, hmatch⟩
    obtain ⟨rule, hrule, hkey, haction⟩ := lookup_decisions_allow.mp hlookup
    exact ⟨rule, hrule, haction, k, hkey, hmatch⟩

/-- Coverage says that every decided flow matching the packet is decided `ALLOW`. -/
theorem allowCovers_iff : AllowCovers dir current network policies pkt ↔
    ∀ k a, (decided dir current network policies).lookup k = some a →
      k.matchesPacket pkt = true →
        (decided dir current network policies).lookup k = some "ALLOW" := by
  constructor
  · intro hcovers k a hlookup hmatch
    obtain ⟨rule, hrule, hkey, -⟩ := exists_rule_of_lookup_decisions hlookup
    obtain ⟨rule', hrule', haction, hkey'⟩ := hcovers rule hrule k hkey hmatch
    exact lookup_decisions_allow.mpr ⟨rule', hrule', hkey', haction⟩
  · intro hall rule hrule k hkey hmatch
    have hsome := isSome_lookup_decisions.mpr ⟨rule, hrule, hkey⟩
    obtain ⟨a, ha⟩ := Option.isSome_iff_exists.mp hsome
    obtain ⟨rule', hrule', hkey', haction⟩ := lookup_decisions_allow.mp (hall k a ha hmatch)
    exact ⟨rule', hrule', haction, hkey'⟩

variable (hactions : ∀ rule ∈ rulesOf dir policies, rule.action = "ALLOW" ∨ rule.action = "DENY")

include hactions

/-- With actions `ALLOW` and `DENY` only, the chain accepts a decided flow exactly
when it is decided `ALLOW`. -/
theorem accept_iff_allow {k : RuleDecisionKey} {a : String}
    (hlookup : (decided dir current network policies).lookup k = some a) :
    ((trafficRule dir (k, a)).action == "ACCEPT") = true ↔ a = "ALLOW" := by
  obtain ⟨rule, hrule, -, rfl⟩ := exists_rule_of_lookup_decisions hlookup
  rcases hactions rule hrule with h | h
  · have haction : toIPTAction "ALLOW" = "ACCEPT" := by decide
    simp [h, trafficRule, haction]
  · have haction : toIPTAction "DENY" = "DROP" := by decide
    simp [h, trafficRule, haction]

/-- The chain never accepts a packet that no `ALLOW` rule matches, in any order. -/
theorem allowedBy_of_chainAccepts {orders : MapOrders}
    (h : chainAccepts (evaluateChain orders current network policies dir) pkt = true) :
    AllowedBy dir current network policies pkt := by
  rw [chainAccepts_evaluateChain] at h
  -- the rule that decided comes from a flow, and only `ALLOW` flows accept
  obtain ⟨r, hmem, hmatch, haccept⟩ := FirstMatch.exists_of_accepts h
  rw [Order.mem_visit, List.mem_map] at hmem
  obtain ⟨⟨k, a⟩, hpair, rfl⟩ := hmem
  have hlookup := GoMap.mem_pairs.mp hpair
  rw [matchesPacket_trafficRule] at hmatch
  obtain rfl := (accept_iff_allow hactions hlookup).mp haccept
  exact allowedBy_iff.mpr ⟨k, hlookup, hmatch⟩

/-- An allowed packet passes in every order exactly when nothing but `ALLOW` flows match it. -/
theorem forall_chainAccepts_iff (hallowed : AllowedBy dir current network policies pkt) :
    (∀ orders, chainAccepts (evaluateChain orders current network policies dir) pkt = true) ↔
      AllowCovers dir current network policies pkt := by
  -- every order of the one map occurs, so the quantifiers range over the same orders
  have horders : (∀ orders,
      chainAccepts (evaluateChain orders current network policies dir) pkt = true) ↔
      ∀ order : Order, FirstMatch.accepts (matchesPacket · pkt) (fun r => r.action == "ACCEPT")
        (order.visit ((decided dir current network policies).pairs.map (trafficRule dir))) =
          true := by
    simp only [chainAccepts_evaluateChain]
    constructor
    · intro h order
      obtain ⟨orders, rfl⟩ := exists_orders dir order
      exact h orders
    · intro h orders
      exact h _
  rw [horders, FirstMatch.forall_visit_accepts_iff, allowCovers_iff]
  constructor
  · rintro ⟨-, hall⟩ k a hlookup hmatch
    have hmem := List.mem_map_of_mem (f := trafficRule dir) (GoMap.mem_pairs.mpr hlookup)
    have haccept := hall _ hmem (by rw [matchesPacket_trafficRule]; exact hmatch)
    rw [(accept_iff_allow hactions hlookup).mp haccept] at hlookup
    exact hlookup
  · intro hcovers
    obtain ⟨k, hlookup, hmatch⟩ := allowedBy_iff.mp hallowed
    refine ⟨⟨trafficRule dir (k, "ALLOW"), ?_, ?_⟩, ?_⟩
    · exact List.mem_map.mpr ⟨(k, "ALLOW"), GoMap.mem_pairs.mpr hlookup, rfl⟩
    · rw [matchesPacket_trafficRule]
      exact hmatch
    · intro r hmem hmatch'
      obtain ⟨⟨k', a⟩, hpair, rfl⟩ := List.mem_map.mp hmem
      rw [matchesPacket_trafficRule] at hmatch'
      have hlookup' := GoMap.mem_pairs.mp hpair
      rw [accept_iff_allow hactions hlookup']
      have hallow := hcovers k' a hlookup' hmatch'
      rw [hlookup', Option.some_inj] at hallow
      exact hallow

end Meaning

/-! ## The theorem -/

/-- **Meaning of a policy set.** The chain `Evaluate` emits accepts exactly the
allowed packets, in whatever order the decision map is ranged over, if and only if
an allowed packet is matched by no flow other than those some `ALLOW` rule has. -/
theorem chain_meaning_iff (current : Infra.Peer) (network : Network) (policies : List Policy)
    (dir : Direction) (pkt : Packet)
    (hactions : ∀ rule ∈ rulesOf dir policies, rule.action = "ALLOW" ∨ rule.action = "DENY") :
    (∀ orders fw, evaluate orders (some current) (some network) policies = .ok fw →
      (chainAccepts (dir.chainOf fw) pkt = true ↔ AllowedBy dir current network policies pkt)) ↔
    (AllowedBy dir current network policies pkt →
      AllowCovers dir current network policies pkt) := by
  have hchain : ∀ orders fw, evaluate orders (some current) (some network) policies = .ok fw →
      dir.chainOf fw = evaluateChain orders current network policies dir :=
    fun orders fw hfw => chainOf_evaluate hfw dir
  constructor
  · intro h hallowed
    rw [← forall_chainAccepts_iff hactions hallowed]
    intro orders
    have haccepts := (h orders _ rfl).mpr hallowed
    rwa [hchain orders _ rfl] at haccepts
  · intro hcovers orders fw hfw
    rw [hchain orders fw hfw]
    refine ⟨allowedBy_of_chainAccepts hactions, fun hallowed => ?_⟩
    exact (forall_chainAccepts_iff hactions hallowed).mpr (hcovers hallowed) orders

/-- One policy admits a block, another denies a host inside it. -/
def denyInsideBlock : List Policy :=
  [{ policyName := "allow", action := "ALLOW"
     ingress := [{ cidrs := ["10.0.0.0/24"], action := "ALLOW" }] },
   { policyName := "deny", action := "DENY"
     ingress := [{ cidrs := ["10.0.0.5/32"], action := "DENY" }] }]

/-- A packet from that host. -/
def packetFromHost : Packet := { remote := .v4 0x0a000005, protocol := "tcp", port := 22 }

theorem chain_meaning_denyInsideBlock :
    (∀ orders fw, evaluate orders (some {}) (some {}) denyInsideBlock = .ok fw →
      (chainAccepts (Direction.ingress.chainOf fw) packetFromHost = true ↔
        AllowedBy .ingress {} {} denyInsideBlock packetFromHost)) ↔
    (AllowedBy .ingress {} {} denyInsideBlock packetFromHost →
      AllowCovers .ingress {} {} denyInsideBlock packetFromHost) :=
  chain_meaning_iff {} {} denyInsideBlock .ingress packetFromHost (by decide)

/-- The packet is allowed, and one of the two emission orders drops it. -/
theorem deny_inside_allowed_block :
    ∃ orders fw, evaluate orders (some {}) (some {}) denyInsideBlock = .ok fw ∧
      AllowedBy .ingress {} {} denyInsideBlock packetFromHost ∧
      chainAccepts (Direction.ingress.chainOf fw) packetFromHost = false := by
  refine ⟨{}, _, rfl, ?_, ?_⟩
  · refine ⟨{ cidrs := ["10.0.0.0/24"], action := "ALLOW" }, by decide, rfl,
      ⟨"10.0.0.0/24", 0, ""⟩, ?_, by decide⟩
    exact ⟨by decide, rfl, rfl⟩
  · decide

end Wireflow.Controller
