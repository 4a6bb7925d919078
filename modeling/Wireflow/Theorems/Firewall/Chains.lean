/-
# What the installed chains accept

After `Provision` has succeeded, from whatever chains, each chain holds the entry for known
connections, one entry for each peer of each rule, and the final `DROP`
(`entries_of_provision`). Such a chain should accept exactly what the rule list accepts.

A rule is installed with its protocol and port only if it names both, so the chain catches
more than the rule matches; and a rule without an action is installed as `ACCEPT`.
`installed_accepts_iff` says for which packets that makes no difference, and
`port_alone_admits_all` is a packet for which it does.
-/

import Wireflow.Agent.ProvisionLinux

namespace Wireflow.Agent.Linux

open Function
open Semantics Program Shell
open Wireflow.Controller (Direction)
open Wireflow.Infra

/-! ## The contents of a chain -/

/-- What a command that succeeds does to the entries of the chain of `dir`. -/
def effect (dir : Direction) (entries : Option (List Entry)) : Command → Option (List Entry)
  | .newChain d | .flush d => if d = dir then some [] else entries
  | .append d entry => if d = dir then entries.map (· ++ [entry]) else entries
  | .checkJump _ | .insertJump _ => entries

/-- The entries of the chain of `dir`. -/
def entriesOf (dir : Direction) (k : Kernel) : Option (List Entry) := (k dir).map (·.entries)

variable {k k' : Kernel}

theorem onChain_eq_ok {dir : Direction} {f : Chain → Chain} (h : onChain dir f k = .ok k') :
    ∃ ch, k dir = some ch ∧ k' = update k dir (some (f ch)) := by
  unfold onChain at h
  cases hk : k dir with
  | none => simp [hk] at h
  | some ch =>
    rw [hk] at h
    cases h
    exact ⟨ch, rfl, rfl⟩

/-- The entries after a change of one chain. -/
theorem entriesOf_update {dir d : Direction} {k : Kernel} {ch : Chain} :
    entriesOf dir (update k d (some ch)) =
      if d = dir then some ch.entries else entriesOf dir k := by
  unfold entriesOf
  by_cases hd : d = dir
  · simp [hd]
  · simp [hd, update_of_ne (Ne.symm hd)]

theorem entriesOf_apply {c : Command} (dir : Direction) (h : c.apply k = .ok k') :
    entriesOf dir k' = effect dir (entriesOf dir k) c := by
  cases c with
  | newChain d =>
    rw [Command.apply] at h
    split at h
    · cases h
    · cases h
      exact entriesOf_update
  | checkJump d =>
    rw [Command.apply] at h
    split_ifs at h
    cases h
    rfl
  | insertJump d | append d entry =>
    obtain ⟨ch, hk, rfl⟩ := onChain_eq_ok h
    rw [entriesOf_update, effect]
    split_ifs with hd
    · subst hd
      simp [entriesOf, hk]
    · rfl
  | flush d =>
    obtain ⟨ch, hk, rfl⟩ := onChain_eq_ok h
    exact entriesOf_update

section

variable {tool : Iptables} {interfaceName : String} {faults : ℕ → Option String}
  {before after : Semantics.Host Kernel} {rule : FirewallRule} {dir : Direction} {pkt : Packet}

theorem apply_of_step {c : Command} (h : tool.step interfaceName c k = .ok k') :
    c.apply k = .ok k' := by
  unfold Iptables.step at h
  split at h
  · cases h
  · exact h

/-- The entries for a list of rules: one for each peer of each rule. -/
def installed (rules : List TrafficRule) : List Entry :=
  rules.flatMap fun tr => tr.peers.map (entryOf tr)

theorem foldl_append (d : Direction) (new old : List Entry) :
    (new.map (.append d)).foldl (effect dir) (some old) =
      some (if d = dir then old ++ new else old) := by
  induction new generalizing old with
  | nil => simp
  | cons e new ih =>
    rw [List.map_cons, List.foldl_cons, effect]
    by_cases hd : d = dir
    · subst hd
      simp [ih]
    · simp [hd, ih]

/-- **The contents of a chain** after a successful `Provision`. -/
theorem entries_of_provision
    (hrun : (provision rule).run (exec (tool.step interfaceName) faults) before =
      (.ok (), after)) :
    entriesOf dir after.state =
      some (⟨.tracked, "ACCEPT"⟩ :: installed (dir.chainOf rule) ++ [⟨.all, "DROP"⟩]) := by
  rw [provision, run_bind, run_bind] at hrun
  rw [view_of_run_runAll (fun c k k' h => entriesOf_apply dir (apply_of_step h)) hrun]
  have hadd : ∀ d rules, addRules d rules = (installed rules).map (.append d) := by
    simp [addRules, installed, addRule, List.map_flatMap, comp_def]
  -- whatever was in the chain is flushed
  simp only [fill, hadd, List.foldl_append]
  cases dir <;> simp [effect, foldl_append, Direction.chainOf]

/-! ## What the chain catches -/

/-- What is installed for the rule matches the packet: protocol and port count only together. -/
def catches (R : Reading) (pkt : Packet) (r : TrafficRule) : Bool :=
  r.peers.any (R.address · pkt.remote) && serviceMatches R pkt (namedService r)

/-- What matches is caught. -/
theorem catches_of_ruleMatches {R : Reading} {r : TrafficRule}
    (h : ruleMatches R pkt r = true) : catches R pkt r = true := by
  simp only [ruleMatches, Bool.and_eq_true, Bool.or_eq_true, beq_iff_eq] at h
  obtain ⟨⟨haddress, hprotocol⟩, hport⟩ := h
  rw [catches, haddress, Bool.true_and, namedService]
  split_ifs with hboth
  · -- both are named, so both match
    have hprotocol' := hprotocol.resolve_left hboth.1
    have hport' := hport.resolve_left hboth.2
    simp [serviceMatches, hprotocol', hport']
  · rfl

theorem any_entryMatches (r : TrafficRule) :
    (r.peers.map (entryOf r)).any (tool.entryMatches pkt) = catches tool.toReading pkt r := by
  have hentry : ∀ ip, tool.entryMatches pkt (entryOf r ip) =
      (tool.address ip pkt.remote && serviceMatches tool.toReading pkt (namedService r)) :=
    fun _ => rfl
  rw [List.any_map, catches]
  simp only [comp_def, hentry]
  -- protocol and port are the same for all peers
  cases serviceMatches tool.toReading pkt (namedService r) <;> simp

/-- The rule's entries accept. -/
def accepting (r : TrafficRule) : Bool := r.action == "" || r.action == "ACCEPT"

/-- The installed chain accepts a packet of a new connection when the first rule that catches
it is an accepting one. -/
theorem chainAccepts_of_provision
    (hrun : (provision rule).run (exec (tool.step interfaceName) faults) before =
      (.ok (), after)) (hnew : pkt.state = .new) :
    tool.chainAccepts after.state dir pkt =
      FirstMatch.accepts (catches tool.toReading pkt) accepting (dir.chainOf rule) := by
  obtain ⟨ch, hch, hentries⟩ := Option.map_eq_some_iff.mp (entries_of_provision hrun)
  have htracked : tool.entryMatches pkt ⟨.tracked, "ACCEPT"⟩ = false := by
    simp [Iptables.entryMatches, hnew]
  have htail : tool.entryAccepts ⟨.all, "DROP"⟩ = false := by
    simp [Iptables.entryAccepts, tool.drop_eq]
  rw [Iptables.chainAccepts, hch]
  simp only [hentries]
  rw [List.cons_append, FirstMatch.accepts_cons_of_neg htracked,
    FirstMatch.accepts_append_reject htail, installed]
  apply FirstMatch.accepts_flatMap any_entryMatches
  intro r e he
  obtain ⟨ip, -, rfl⟩ := List.mem_map.mp he
  rw [Bool.eq_iff_iff, Iptables.entryAccepts, beq_iff_eq, tool.accept_iff, accepting, entryOf]
  by_cases hempty : r.action = "" <;> simp [hempty]

end

/-! ## The theorem -/

/-- The rule of the list that the chain decides a packet by is one that matches it and names its
action; or it was caught for want of a protocol or a port, and what comes after it has the same
verdict. -/
def FaithfullyCaught (R : Reading) (rules : List TrafficRule) (pkt : Packet) : Prop :=
  ∀ front r back, rules = front ++ r :: back → (∀ q ∈ front, catches R pkt q = false) →
    catches R pkt r = true →
      if ruleMatches R pkt r then r.action ≠ "" else accepting r = rulesAccept R back pkt

/-- **The chain and the rule list** give a packet of a new connection the same verdict, after
any successful `Provision`, if and only if it is caught faithfully. -/
theorem installed_accepts_iff (tool : Iptables) (interfaceName : String)
    (faults : ℕ → Option String) (before after : Semantics.Host Kernel) (rule : FirewallRule)
    (hrun : (provision rule).run (exec (tool.step interfaceName) faults) before = (.ok (), after))
    (dir : Direction) (pkt : Packet) (hnew : pkt.state = .new) :
    (tool.chainAccepts after.state dir pkt = true ↔
      rulesAccept tool.toReading (dir.chainOf rule) pkt = true) ↔
    FaithfullyCaught tool.toReading (dir.chainOf rule) pkt := by
  rw [← Bool.eq_iff_iff, chainAccepts_of_provision hrun hnew, rulesAccept,
    FirstMatch.accepts_eq_accepts_iff fun r => catches_of_ruleMatches]
  have hverdict : ∀ r : TrafficRule,
      accepting r = (r.action == "ACCEPT") ↔ r.action ≠ "" := by
    intro r
    by_cases hempty : r.action = "" <;> simp [accepting, hempty]
  simp only [hverdict]
  rfl

/-! ## A port without a protocol -/

/-- A tool that refuses nothing. -/
def plain : Iptables where
  address text ip := Go.Net.parseIP text == some ip
  protocol text name := text == name
  refuses _ := none
  verdict target :=
    if target = "ACCEPT" then .accept else if target = "RETURN" then .back else .drop
  accept_iff target := by split_ifs <;> simp_all
  drop_eq := by decide

namespace PortAlone

/-- Port 443 may be reached from `10.0.0.5`, by whatever protocol. -/
def rule : FirewallRule :=
  { ingress := [{ chainName := "LATTICE-INGRESS", peers := ["10.0.0.5"], port := 443,
                  action := "ACCEPT" },
                { chainName := "LATTICE-INGRESS", action := "DROP" }] }

/-- The same for TCP only. -/
def tcpRule : FirewallRule :=
  { ingress := [{ chainName := "LATTICE-INGRESS", peers := ["10.0.0.5"], protocol := "TCP",
                  port := 443, action := "ACCEPT" },
                { chainName := "LATTICE-INGRESS", action := "DROP" }] }

/-- A connection to the SSH port. -/
def ssh : Packet := { remote := .v4 0x0a000005, protocol := "tcp", port := 22 }

def bare : Semantics.Host Kernel := { state := fun _ => none }

/-- The machine after `Provision`, and how it exited. -/
def provisioned (rule : FirewallRule) : Exit × Semantics.Host Kernel :=
  (provision rule).run (exec (plain.step "lattice0") fun _ => none) bare

end PortAlone

open PortAlone in
/-- **A rule for one port admits every port.** -/
theorem port_alone_admits_all :
    (provisioned rule).1 = .ok () ∧
      plain.chainAccepts (provisioned rule).2.state .ingress ssh = true ∧
      rulesAccept plain.toReading rule.ingress ssh = false := by
  have hok : (provisioned rule).1 = .ok () := by rfl
  have haccepts : plain.chainAccepts (provisioned rule).2.state .ingress ssh = true := by
    decide +kernel
  exact ⟨hok, haccepts, by decide +kernel⟩

open PortAlone in
/-- With the protocol named as well, the chain accepts what the rule list accepts. -/
theorem installed_accepts_iff_tcp :
    (plain.chainAccepts (provisioned tcpRule).2.state .ingress ssh = true ↔
      rulesAccept plain.toReading tcpRule.ingress ssh = true) ↔
    FaithfullyCaught plain.toReading tcpRule.ingress ssh :=
  installed_accepts_iff plain "lattice0" (fun _ => none) bare (provisioned tcpRule).2 tcpRule rfl
    .ingress ssh rfl

end Wireflow.Agent.Linux
