/-
# The Windows provisioner

`Provision` of `provision_windows.go`: remove the rules of an earlier run and create an
allow rule for each traffic rule, over a default of blocking.
-/

import Wireflow.Agent.Firewall
import Wireflow.Go.Prefix
import Wireflow.Semantics.Shell

namespace Wireflow.Agent.Windows

open Go.Net (IP intText)
open Go.Strings
open Semantics Program Shell
open Wireflow.Controller (Direction)
open Wireflow.Infra

/-! ## Commands -/

/-- An allow rule of the firewall. -/
structure AllowRule where
  dir : Direction
  index : ℕ
  protocol : String
  port : ℤ
  peers : List String
  deriving DecidableEq, Repr

/-- The PowerShell commands of the provisioner. -/
inductive Command
  | removeRules
  | newRule (rule : AllowRule)
  deriving DecidableEq, Repr

def shortName : Direction → String
  | .ingress => "In"
  | .egress => "Out"

/-- The text of a command. The destination port is the local one of an incoming packet and the
remote one of an outgoing packet. -/
def Command.text : Command → String
  | .removeRules => "Remove-NetFirewallRule -DisplayName 'Lattice-*'"
  | .newRule r =>
      "New-NetFirewallRule -DisplayName 'Lattice-" ++ shortName r.dir ++ "-" ++
        Nat.repr r.index ++ "' -Direction " ++
        (match r.dir with | .ingress => "Inbound" | .egress => "Outbound") ++
        " -Action Allow -Protocol " ++ r.protocol ++
        (match r.dir with | .ingress => " -LocalPort " | .egress => " -RemotePort ") ++
        intText r.port ++ " -RemoteAddress " ++ joinComma r.peers

/-! ## The provisioner -/

/-- The rule for the `i`-th traffic rule. Its action is not looked at, and protocol and port go
in whether or not they are named. -/
def allowRule (dir : Direction) (i : ℕ) (tr : TrafficRule) : AllowRule :=
  { dir := dir, index := i, protocol := toUpper tr.protocol, port := tr.port, peers := tr.peers }

/-- The rules for a rule set. -/
def allowRules (rule : FirewallRule) : List AllowRule :=
  rule.ingress.mapIdx (allowRule .ingress) ++ rule.egress.mapIdx (allowRule .egress)

/-- `Provision`. Whether the old rules could be removed is not looked at. -/
def provision (rule : FirewallRule) : Shell Command Exit := do
  let _ ← perform .removeRules
  runAll ((allowRules rule).map .newRule)

/-! ## The machine -/

/-- The tool, next to a reading of addresses and protocols. What it makes of a protocol that is
not named, of port zero and of an empty list of addresses, if it does not refuse them, is left
open. -/
structure NetFirewall (R : Reading) where
  refuses : String → Option String
  protocol : String → String → Bool
  port : ℤ → ℤ → Bool
  hosts : List String → IP → Bool
  protocol_of_ne : ∀ text name, text ≠ "" →
    protocol (toUpper text) name = R.protocol (toLower text) name
  port_of_ne : ∀ n p, n ≠ 0 → port n p = (n == p)
  hosts_of_ne_nil : ∀ list ip, list ≠ [] → hosts list ip = list.any (R.address · ip)

namespace NetFirewall

variable {R : Reading} (w : NetFirewall R)

/-- What a command does to the rules, which are those named after the lattice. -/
def step (c : Command) (rules : List AllowRule) : Except String (List AllowRule) :=
  match w.refuses c.text with
  | some stderr => .error stderr
  | none =>
      match c with
      | .removeRules => .ok []
      | .newRule r => .ok (rules ++ [r])

/-- The rule allows the packet. -/
def allows (dir : Direction) (pkt : Packet) (r : AllowRule) : Bool :=
  r.dir == dir && w.hosts r.peers pkt.remote && w.protocol r.protocol pkt.protocol &&
    w.port r.port pkt.port

/-- The packet is let through: some rule allows it. -/
def letsThrough (rules : List AllowRule) (dir : Direction) (pkt : Packet) : Bool :=
  rules.any (w.allows dir pkt)

end NetFirewall

end Wireflow.Agent.Windows
