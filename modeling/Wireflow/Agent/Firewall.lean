/-
# Packets and what a rule set says about them

A packet on the lattice interface as firewall rules see it, and the meaning of the
rule lists of a `FirewallRule` taken by themselves: the first rule that matches
decides. The provisioners of the three platforms translate such a list into rule
languages of their own.

How a tool reads the text of an address or of a protocol is not for the agent to say;
a `Reading` fixes it, and everything is stated for all readings.
-/

import Wireflow.Controller.PolicyEvaluator
import Wireflow.Semantics.FirstMatch

namespace Wireflow.Agent

open Go.Net (IP)
open Go.Strings
open Semantics
open Wireflow.Infra

/-- What connection tracking says about the connection of a packet. -/
inductive ConnState
  | new
  | established
  | related
  deriving DecidableEq, Repr

/-- A packet on the lattice interface: its other end (the source of an incoming packet, the
destination of an outgoing one), its protocol, and its destination port. -/
structure Packet where
  remote : IP
  protocol : String
  port : ℤ
  state : ConnState := .new

/-- How texts in rules are read. -/
structure Reading where
  /-- The addresses that a text stands for. -/
  address : String → IP → Bool
  /-- The protocols that a text in lower case stands for. -/
  protocol : String → String → Bool

/-- Protocol and port as `iptables` and `pf` are given them: both of them, in lower case, or
neither. -/
def namedService (tr : TrafficRule) : Option (String × ℤ) :=
  if tr.protocol ≠ "" ∧ tr.port ≠ 0 then some (toLower tr.protocol, tr.port) else none

def serviceMatches (R : Reading) (pkt : Packet) : Option (String × ℤ) → Bool
  | none => true
  | some (protocol, port) => R.protocol protocol pkt.protocol && port == pkt.port

/-- The rule matches the packet's address, its protocol if the rule names one, and its
destination port if the rule names one. A rule without peers matches no address. -/
def ruleMatches (R : Reading) (pkt : Packet) (r : TrafficRule) : Bool :=
  r.peers.any (R.address · pkt.remote) &&
    (r.protocol == "" || R.protocol (toLower r.protocol) pkt.protocol) &&
      (r.port == 0 || r.port == pkt.port)

/-- The first rule that matches has action `ACCEPT`. -/
def rulesAccept (R : Reading) (rules : List TrafficRule) (pkt : Packet) : Bool :=
  FirstMatch.accepts (ruleMatches R pkt) (fun r => r.action == "ACCEPT") rules

end Wireflow.Agent
