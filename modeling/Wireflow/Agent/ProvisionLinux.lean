/-
# The iptables provisioner

`Provision` of `provision_linux.go`: make sure that the two chains exist and are mounted,
flush them, and append the rules one by one, with a `DROP` at the end.

The kernel side is the part of iptables that these commands touch: two chains of entries
read from the top, and for each whether its parent chain jumps to it. The parent has
policy `ACCEPT`, so what a chain hands back, and what never enters it, passes. A chain
that does not exist cannot be jumped to, which is why the jump is kept with the chain.
-/

import Wireflow.Agent.Firewall
import Wireflow.Go.Prefix
import Wireflow.Semantics.Shell

namespace Wireflow.Agent.Linux

open Go.Net (intText)
open Go.Strings
open Semantics Program Shell
open Wireflow.Controller (Direction)
open Wireflow.Infra

/-! ## Commands -/

/-- The built-in chain that a chain is mounted in. -/
def parent : Direction → String
  | .ingress => "INPUT"
  | .egress => "OUTPUT"

/-- The flag that names the interface. -/
def ifaceFlag : Direction → String
  | .ingress => "-i"
  | .egress => "-o"

/-- The flag that names the other end: the source, or the destination. -/
def addressFlag : Direction → String
  | .ingress => "-s"
  | .egress => "-d"

/-- What an entry looks at. -/
inductive Match
  /-- Packets of connections that are known already. -/
  | tracked
  /-- Packets from or to an address, perhaps of one protocol and port only. -/
  | peer (ip : String) (service : Option (String × ℤ))
  | all
  deriving DecidableEq, Repr

def Match.args (dir : Direction) : Match → List String
  | .tracked => ["-m", "conntrack", "--ctstate", "ESTABLISHED,RELATED"]
  | .peer ip none => [addressFlag dir, ip]
  | .peer ip (some (protocol, port)) =>
      [addressFlag dir, ip, "-p", protocol, "--dport", intText port]
  | .all => []

structure Entry where
  criteria : Match
  target : String
  deriving DecidableEq, Repr

/-- The `iptables` commands of the provisioner. -/
inductive Command
  | newChain (dir : Direction)
  | checkJump (dir : Direction)
  | insertJump (dir : Direction)
  | flush (dir : Direction)
  | append (dir : Direction) (entry : Entry)
  deriving DecidableEq, Repr

/-- The arguments of a command. -/
def Command.args (interfaceName : String) : Command → List String
  | .newChain dir => ["-w", "5", "-N", dir.chainName]
  | .checkJump dir =>
      ["-w", "5", "-C", parent dir, ifaceFlag dir, interfaceName, "-j", dir.chainName]
  | .insertJump dir =>
      ["-w", "5", "-I", parent dir, "1", ifaceFlag dir, interfaceName, "-j", dir.chainName]
  | .flush dir => ["-F", dir.chainName]
  | .append dir entry => ["-A", dir.chainName] ++ entry.criteria.args dir ++ ["-j", entry.target]

/-! ## The provisioner -/

/-- `initChain`. A failure is logged and nothing else. -/
def initChain (dir : Direction) : Shell Command Unit := do
  let created ← perform (.newChain dir)
  match created with
  | .error stderr =>
      -- a chain that exists already is as good as a new one
      if contains stderr "already exists" then mount dir else pure ()
  | .ok _ => mount dir
where
  /-- Insert the jump unless it is there. -/
  mount (dir : Direction) : Shell Command Unit := do
    match ← perform (.checkJump dir) with
    | .ok _ => pure ()
    | .error _ => do
        let _ ← perform (.insertJump dir)
        pure ()

/-- The entry of `addRule`. Protocol and port go in only if the rule names both; a rule
without an action accepts. -/
def entryOf (tr : TrafficRule) (ip : String) : Entry :=
  { criteria := .peer ip (namedService tr)
    target := if tr.action = "" then "ACCEPT" else tr.action }

/-- `addRule`. -/
def addRule (dir : Direction) (ip : String) (tr : TrafficRule) : Command :=
  .append dir (entryOf tr ip)

/-- The loop over the rules of one direction and, inside, over the peers of each. -/
def addRules (dir : Direction) (rules : List TrafficRule) : List Command :=
  rules.flatMap fun tr => tr.peers.map fun ip => addRule dir ip tr

/-- The commands that `Provision` runs once the chains are there. -/
def fill (rule : FirewallRule) : List Command :=
  [.flush .ingress, .flush .egress,
    .append .ingress ⟨.tracked, "ACCEPT"⟩, .append .egress ⟨.tracked, "ACCEPT"⟩] ++
  addRules .ingress rule.ingress ++ addRules .egress rule.egress ++
  [.append .ingress ⟨.all, "DROP"⟩, .append .egress ⟨.all, "DROP"⟩]

/-- `Provision`. -/
def provision (rule : FirewallRule) : Shell Command Exit := do
  initChain .ingress
  initChain .egress
  runAll (fill rule)

/-! ## The kernel -/

/-- What a target does with the packet: `back` hands it to the parent chain. -/
inductive Verdict
  | accept
  | drop
  | back
  deriving DecidableEq, Repr

/-- The tool: how it reads addresses and protocols, which commands it refuses and with what
message, and what its targets do. -/
structure Iptables extends Reading where
  refuses : List String → Option String
  verdict : String → Verdict
  accept_iff : ∀ target, verdict target = .accept ↔ target = "ACCEPT"
  drop_eq : verdict "DROP" = .drop

structure Chain where
  entries : List Entry := []
  hooked : Bool := false
  deriving DecidableEq, Repr

/-- The chains that exist. -/
abbrev Kernel := Direction → Option Chain

/-- Change a chain, if there is one. -/
def onChain (dir : Direction) (f : Chain → Chain) (k : Kernel) : Except String Kernel :=
  match k dir with
  | none => .error "iptables: No chain/target/match by that name."
  | some ch => .ok (Function.update k dir (some (f ch)))

/-- What a command does to the chains. -/
def Command.apply : Command → Kernel → Except String Kernel
  | .newChain dir, k =>
      match k dir with
      | some _ => .error "iptables: Chain already exists."
      | none => .ok (Function.update k dir (some {}))
  | .checkJump dir, k =>
      if (k dir).any (·.hooked) then .ok k
      else .error "iptables: Bad rule (does a matching rule exist in that chain?)."
  | .insertJump dir, k => onChain dir (fun ch => { ch with hooked := true }) k
  | .flush dir, k => onChain dir (fun ch => { ch with entries := [] }) k
  | .append dir entry, k => onChain dir (fun ch => { ch with entries := ch.entries ++ [entry] }) k

namespace Iptables

variable (tool : Iptables)

/-- A command as the tool carries it out. -/
def step (interfaceName : String) (c : Command) (k : Kernel) : Except String Kernel :=
  match tool.refuses (c.args interfaceName) with
  | some stderr => .error stderr
  | none => c.apply k

/-- The entry matches the packet. -/
def entryMatches (pkt : Packet) (e : Entry) : Bool :=
  match e.criteria with
  | .tracked => pkt.state != .new
  | .peer ip service =>
      tool.address ip pkt.remote && serviceMatches tool.toReading pkt service
  | .all => true

def entryAccepts (e : Entry) : Bool := tool.verdict e.target == .accept

/-- What the entry does not drop ends up accepted, here or in the parent chain. -/
def entryPasses (e : Entry) : Bool := tool.verdict e.target != .drop

/-- The chain accepts the packet: the first entry that matches does. -/
def chainAccepts (k : Kernel) (dir : Direction) (pkt : Packet) : Bool :=
  match k dir with
  | none => false
  | some ch => FirstMatch.accepts (tool.entryMatches pkt) tool.entryAccepts ch.entries

/-- The packet is let through: nothing jumps to the chain, or the chain does not drop it. -/
def letsThrough (k : Kernel) (dir : Direction) (pkt : Packet) : Bool :=
  match k dir with
  | none => true
  | some ch => !ch.hooked || FirstMatch.passes (tool.entryMatches pkt) tool.entryPasses ch.entries

end Iptables

end Wireflow.Agent.Linux
