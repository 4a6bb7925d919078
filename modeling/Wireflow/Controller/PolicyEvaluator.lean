/-
# From policies to firewall rules

`Evaluate` resolves the names in each rule to addresses, records one decision per
(address, port, protocol), with `ALLOW` sticky, and emits the decisions as
traffic rules in the order Go ranges over the decision map, followed by a
default-deny tail.

The two directions are the same computation over different rules, so they share
`decisions` and `chain`. What a decision map holds in the end is said once, by
`lookup_decisions_allow` and its companions, in terms of which rules have a key.
-/

import Wireflow.Controller.Utils
import Wireflow.Semantics.Loops

namespace Wireflow.Controller

open Go (GoMap Order)
open Go.Strings
open Semantics
open Wireflow.Api Wireflow.Infra

/-- The order of every map traversal inside one run of the generator. The `n`-th
call of `transferToPeer` takes the `n`-th order of annotations. -/
structure MapOrders where
  routes : ℕ → Order := fun _ => Order.inPlace
  ingress : Order := Order.inPlace
  egress : Order := Order.inPlace

/-- `ruleDecisionKey`. -/
@[ext]
structure RuleDecisionKey where
  /-- Address or CIDR. -/
  peer : String
  port : Int
  protocol : String
  deriving DecidableEq, Repr

inductive Direction
  | ingress
  | egress
  deriving DecidableEq, Repr

def Direction.rules : Direction → Policy → List Rule
  | .ingress, p => p.ingress
  | .egress, p => p.egress

def Direction.chainName : Direction → String
  | .ingress => "LATTICE-INGRESS"
  | .egress => "LATTICE-EGRESS"

def Direction.order : Direction → MapOrders → Order
  | .ingress, orders => orders.ingress
  | .egress, orders => orders.egress

def Direction.chainOf : Direction → FirewallRule → List TrafficRule
  | .ingress, fw => fw.ingress
  | .egress, fw => fw.egress

variable (dir : Direction)

/-- Every order of one direction comes from some choice of all orders. -/
theorem exists_orders (order : Order) :
    ∃ orders : MapOrders, dir.order orders = order := by
  cases dir with
  | ingress => exact ⟨{ ingress := order }, rfl⟩
  | egress => exact ⟨{ egress := order }, rfl⟩

/-- The rules of one direction across a list of policies. -/
def rulesOf (policies : List Policy) : List Rule := policies.flatMap dir.rules

/-! ## Definitions -/

/-- One peer more in the name-to-address table, if it has an address. -/
def addAddress (table : GoMap String String) (p : Infra.Peer) : GoMap String String :=
  if p.address.isSome then table.insert p.name (cleanIP p.address) else table

/-- The name-to-address table. -/
def peerIPByName (peers : List Infra.Peer) : GoMap String String := peers.foldl addAddress ∅

/-- `resolveRulePeers`: addresses for the names, the current peer and peers without
an address left out, and then the CIDRs that are not blank. -/
def resolveRulePeers (rule : Rule) (table : GoMap String String) (currentPeerName : String) :
    List String :=
  (rule.peerNames.filterMap fun name =>
    let ip := Labels.get table name
    if name = currentPeerName ∨ ip = "" then none else some ip) ++
  rule.cidrs.filter fun cidr => !isBlank cidr

/-- `toIPTAction`. -/
def toIPTAction (action : String) : String :=
  if equalFold action "ALLOW" then "ACCEPT" else "DROP"

abbrev Decisions := GoMap RuleDecisionKey String

/-- One assignment to the decision map; `ALLOW` cannot be overwritten. -/
def record (decisions : Decisions) (k : RuleDecisionKey) (action : String) : Decisions :=
  if decisions.lookup k = some "ALLOW" then decisions else decisions.insert k action

/-- `applyDecision`. -/
def applyDecision (table : GoMap String String) (currentPeerName : String)
    (decisions : Decisions) (rule : Rule) : Decisions :=
  (resolveRulePeers rule table currentPeerName).foldl
    (fun acc peer => record acc ⟨peer, rule.port, rule.protocol⟩ rule.action) decisions

/-- The decisions of one direction. -/
def decisions (table : GoMap String String) (currentPeerName : String) (rules : List Rule) :
    Decisions :=
  rules.foldl (applyDecision table currentPeerName) ∅

def trafficRule (entry : RuleDecisionKey × String) : TrafficRule :=
  { chainName := dir.chainName, peers := [entry.1.peer], port := entry.1.port
    protocol := entry.1.protocol, action := toIPTAction entry.2 }

/-- The default-deny tail: no peers, so it applies to everything. -/
def tailRule : TrafficRule := { chainName := dir.chainName, action := "DROP" }

/-- The rules of one direction as emitted. -/
def chain (decided : Decisions) (order : Order) : List TrafficRule :=
  (decided.range order).map (trafficRule dir) ++ [tailRule dir]

/-- The chain of one direction, from the policies. -/
def evaluateChain (orders : MapOrders) (current : Infra.Peer) (network : Network)
    (policies : List Policy) (dir : Direction) : List TrafficRule :=
  chain dir (decisions (peerIPByName network.peers) current.name (rulesOf dir policies))
    (dir.order orders)

/-- `Evaluate`. A nil peer or network is rejected. -/
def evaluate (orders : MapOrders) (currentPeer : Option Infra.Peer) (network : Option Network)
    (policies : List Policy) : Except GoError FirewallRule :=
  match currentPeer, network with
  | some current, some net =>
      .ok { platform := current.platform
            ingress := evaluateChain orders current net policies .ingress
            egress := evaluateChain orders current net policies .egress }
  | _, _ => .error { text := "currentPeer and network must not be nil" }

theorem chainOf_evaluate {orders : MapOrders} {current : Infra.Peer} {network : Network}
    {policies : List Policy} {fw : FirewallRule}
    (h : evaluate orders (some current) (some network) policies = .ok fw) (dir : Direction) :
    dir.chainOf fw = evaluateChain orders current network policies dir := by
  rw [evaluate, Except.ok.injEq] at h
  subst h
  cases dir <;> rfl

/-! ## What the address table holds -/

section Table

variable {peers : List Infra.Peer} {name ip : String}

variable {p : Infra.Peer}

theorem lookup_addAddress_cases {table : GoMap String String}
    (h : (addAddress table p).lookup name = some ip) :
    table.lookup name = some ip ∨ (p.name = name ∧ p.address.isSome ∧ ip = cleanIP p.address) := by
  unfold addAddress at h
  split_ifs at h with haddress
  · by_cases hname : name = p.name
    · subst hname
      rw [AList.lookup_insert, Option.some_inj] at h
      exact .inr ⟨rfl, haddress, h.symm⟩
    · rw [AList.lookup_insert_ne hname] at h
      exact .inl h
  · exact .inl h

theorem mem_addAddress {table : GoMap String String} :
    name ∈ addAddress table p ↔ name ∈ table ∨ (p.name = name ∧ p.address.isSome) := by
  unfold addAddress
  split_ifs with haddress
  · rw [AList.mem_insert, or_comm, eq_comm]
    simp [haddress]
  · simp [haddress]

/-- Every entry of the table is the address of a peer. -/
theorem exists_of_lookup_peerIPByName (h : (peerIPByName peers).lookup name = some ip) :
    ∃ p ∈ peers, p.name = name ∧ p.address.isSome ∧ ip = cleanIP p.address := by
  rcases foldl_cases (Q := fun table : GoMap String String => table.lookup name = some ip)
    (fun _ q => lookup_addAddress_cases (p := q)) peers ∅ h with hempty | hpeer
  · simp at hempty
  · exact hpeer

/-- Every peer with an address has an entry. -/
theorem mem_peerIPByName (hp : p ∈ peers) (haddress : p.address.isSome) :
    p.name ∈ peerIPByName peers := by
  have hloop := foldl_or (Q := fun table : GoMap String String => p.name ∈ table)
    (fun _ q => mem_addAddress (p := q)) peers ∅
  exact hloop.mpr (.inr ⟨p, hp, rfl, haddress⟩)

/-- The addresses a rule is resolved to: those of the names it carries, and its CIDRs. -/
theorem mem_resolveRulePeers {rule : Rule} {table : GoMap String String} {currentPeerName : String}
    {a : String} : a ∈ resolveRulePeers rule table currentPeerName ↔
      (∃ name ∈ rule.peerNames, name ≠ currentPeerName ∧ table.lookup name = some a ∧ a ≠ "") ∨
        (a ∈ rule.cidrs ∧ isBlank a = false) := by
  have hname : ∀ name, (if name = currentPeerName ∨ Labels.get table name = "" then none
      else some (Labels.get table name)) = some a ↔
      name ≠ currentPeerName ∧ table.lookup name = some a ∧ a ≠ "" := by
    intro name
    unfold Labels.get
    cases table.lookup name with
    | none => simp
    | some ip =>
      rw [Option.getD_some, Option.some_inj]
      by_cases hcur : name = currentPeerName
      · simp [hcur]
      · by_cases hempty : ip = ""
        · simp only [hempty, or_true, if_true, reduceCtorEq, false_iff, not_and, not_not]
          exact fun _ h => h.symm
        · simp only [hcur, hempty, or_self, if_false, Option.some_inj, ne_eq, not_false_eq_true,
            true_and]
          exact ⟨fun h => ⟨h, h ▸ hempty⟩, And.left⟩
  simp only [resolveRulePeers, List.mem_append, List.mem_filterMap, List.mem_filter, hname,
    Bool.not_eq_true']

end Table

/-! ## What the decision map holds -/

/-- A rule that, once resolved, speaks about the flow `k`. -/
def HasKey (table : GoMap String String) (currentPeerName : String) (rule : Rule)
    (k : RuleDecisionKey) : Prop :=
  k.peer ∈ resolveRulePeers rule table currentPeerName ∧ k.port = rule.port ∧
    k.protocol = rule.protocol

section Record

variable {acc : Decisions} {k k' : RuleDecisionKey} {a : String}

theorem lookup_record_self : (record acc k a).lookup k =
    some (if acc.lookup k = some "ALLOW" then "ALLOW" else a) := by
  unfold record
  by_cases h : acc.lookup k = some "ALLOW"
  · rw [if_pos h, if_pos h, h]
  · rw [if_neg h, if_neg h, AList.lookup_insert]

theorem lookup_record_ne (hk : k' ≠ k) : (record acc k a).lookup k' = acc.lookup k' := by
  unfold record
  split_ifs
  · rfl
  · exact AList.lookup_insert_ne hk

/-- After an assignment, the entry at any key is the old one or the assigned one. -/
theorem lookup_record_cases {b : String} (h : (record acc k a).lookup k' = some b) :
    acc.lookup k' = some b ∨ (k' = k ∧ b = a) := by
  by_cases hk : k' = k
  · subst hk
    rw [lookup_record_self, Option.some_inj] at h
    by_cases hallow : acc.lookup k' = some "ALLOW"
    · rw [if_pos hallow] at h
      exact .inl (h ▸ hallow)
    · rw [if_neg hallow] at h
      exact .inr ⟨rfl, h.symm⟩
  · rw [lookup_record_ne hk] at h
    exact .inl h

theorem lookup_record_allow : (record acc k a).lookup k' = some "ALLOW" ↔
    acc.lookup k' = some "ALLOW" ∨ (k' = k ∧ a = "ALLOW") := by
  by_cases hk : k' = k
  · subst hk
    rw [lookup_record_self, Option.some_inj]
    by_cases hallow : acc.lookup k' = some "ALLOW" <;> simp [hallow]
  · simp [lookup_record_ne hk, hk]

theorem isSome_lookup_record : ((record acc k a).lookup k').isSome ↔
    (acc.lookup k').isSome ∨ k' = k := by
  by_cases hk : k' = k
  · subst hk
    simp [lookup_record_self]
  · simp [lookup_record_ne hk, hk]

end Record

section Decisions

variable {table : GoMap String String} {currentPeerName : String} {rules : List Rule}
  {k : RuleDecisionKey} {a : String}

/-- Every assignment a list of rules makes, in order. -/
def assignments (table : GoMap String String) (currentPeerName : String) (rules : List Rule) :
    List (RuleDecisionKey × String) :=
  rules.flatMap fun rule => (resolveRulePeers rule table currentPeerName).map fun peer =>
    (⟨peer, rule.port, rule.protocol⟩, rule.action)

theorem mem_assignments : (k, a) ∈ assignments table currentPeerName rules ↔
    ∃ rule ∈ rules, HasKey table currentPeerName rule k ∧ rule.action = a := by
  obtain ⟨peer, port, protocol⟩ := k
  simp only [assignments, List.mem_flatMap, List.mem_map, Prod.mk.injEq, RuleDecisionKey.mk.injEq,
    HasKey]
  constructor
  · rintro ⟨rule, hrule, peer', hpeer, ⟨rfl, rfl, rfl⟩, rfl⟩
    exact ⟨rule, hrule, ⟨hpeer, rfl, rfl⟩, rfl⟩
  · rintro ⟨rule, hrule, ⟨hpeer, rfl, rfl⟩, rfl⟩
    exact ⟨rule, hrule, peer, hpeer, ⟨rfl, rfl, rfl⟩, rfl⟩

theorem decisions_eq_foldl : decisions table currentPeerName rules =
    (assignments table currentPeerName rules).foldl (fun acc e => record acc e.1 e.2) ∅ := by
  simp only [decisions, assignments, List.foldl_flatMap, List.foldl_map]
  rfl

/-- `ALLOW` is sticky. -/
theorem lookup_foldl_allow {l : List (RuleDecisionKey × String)} :
    (l.foldl (fun acc e => record acc e.1 e.2) ∅).lookup k = some "ALLOW" ↔ (k, "ALLOW") ∈ l := by
  refine (foldl_or (Q := fun acc : Decisions => acc.lookup k = some "ALLOW")
    (fun _ e => lookup_record_allow (a := e.2)) _ _).trans ?_
  constructor
  · rintro (hempty | ⟨⟨k', a'⟩, hmem, rfl, rfl⟩)
    · simp at hempty
    · exact hmem
  · intro hmem
    exact .inr ⟨_, hmem, rfl, rfl⟩

/-- A flow is decided `ALLOW` exactly when some `ALLOW` rule speaks about it. -/
theorem lookup_decisions_allow :
    (decisions table currentPeerName rules).lookup k = some "ALLOW" ↔
      ∃ rule ∈ rules, HasKey table currentPeerName rule k ∧ rule.action = "ALLOW" := by
  rw [decisions_eq_foldl, ← mem_assignments, lookup_foldl_allow]

/-- A flow is decided at all exactly when some rule speaks about it. -/
theorem isSome_lookup_decisions :
    ((decisions table currentPeerName rules).lookup k).isSome ↔
      ∃ rule ∈ rules, HasKey table currentPeerName rule k := by
  rw [decisions_eq_foldl]
  refine (foldl_or (Q := fun acc : Decisions => (acc.lookup k).isSome)
    (fun _ e => isSome_lookup_record (k := e.1)) _ _).trans ?_
  constructor
  · rintro (hempty | ⟨⟨k', a'⟩, hmem, rfl⟩)
    · simp at hempty
    · obtain ⟨rule, hrule, hkey, -⟩ := mem_assignments.mp hmem
      exact ⟨rule, hrule, hkey⟩
  · rintro ⟨rule, hrule, hkey⟩
    exact .inr ⟨_, mem_assignments.mpr ⟨rule, hrule, hkey, rfl⟩, rfl⟩

/-- Whatever is decided is the action of a rule that speaks about the flow. -/
theorem exists_rule_of_lookup_decisions
    (h : (decisions table currentPeerName rules).lookup k = some a) :
    ∃ rule ∈ rules, HasKey table currentPeerName rule k ∧ rule.action = a := by
  rw [decisions_eq_foldl] at h
  rcases foldl_cases (Q := fun acc : Decisions => acc.lookup k = some a)
    (fun _ e => lookup_record_cases (a := e.2)) _ _ h with
    hempty | ⟨⟨k', a'⟩, hmem, rfl, rfl⟩
  · simp at hempty
  · exact mem_assignments.mp hmem

end Decisions

end Wireflow.Controller
