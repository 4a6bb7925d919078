/-
# The pf provisioner

`Provision` of `provision_darwin.go`: enable pf, make sure that the main ruleset evaluates
the anchor, write the rules of the anchor to a file and load it. In pf the last rule that
matches decides, so the two `block` rules come first.

Nothing else in the main ruleset is taken to concern the lattice interface.
-/

import Wireflow.Agent.Firewall
import Wireflow.Go.Prefix
import Wireflow.Semantics.Shell

namespace Wireflow.Agent.Darwin

open Go.Net (IP intText)
open Go.Strings
open Semantics Program
open Wireflow.Controller (Direction)
open Wireflow.Infra

/-! ## Rules and commands -/

/-- The rules the provisioner writes. -/
inductive PfRule
  | block (dir : Direction)
  | pass (dir : Direction) (hosts : List String) (service : Option (String × ℤ))
  deriving DecidableEq, Repr

def keyword : Direction → String
  | .ingress => "in"
  | .egress => "out"

/-- A list of hosts in braces. -/
def hostsText (hosts : List String) : String := "\x7b" ++ String.intercalate ", " hosts ++ "\x7d"

/-- The line of a rule. -/
def PfRule.text (interfaceName : String) : PfRule → String
  | .block dir => "block " ++ keyword dir ++ " on " ++ interfaceName ++ " all\n"
  | .pass .ingress hosts none => "pass in from " ++ hostsText hosts ++ "\n"
  | .pass .ingress hosts (some (protocol, port)) =>
      "pass in proto " ++ protocol ++ " from " ++ hostsText hosts ++ " to any port " ++
        intText port ++ "\n"
  | .pass .egress hosts none => "pass out to " ++ hostsText hosts ++ "\n"
  | .pass .egress hosts (some (protocol, port)) =>
      "pass out proto " ++ protocol ++ " from any to " ++ hostsText hosts ++ " port " ++
        intText port ++ "\n"

/-- What the provisioner does to the machine. -/
inductive Command
  /-- `pfctl -e`. -/
  | enable
  /-- `pfctl -sr`. -/
  | showRules
  /-- `pfctl -f -` with the main ruleset on standard input. -/
  | loadMain (text : String)
  /-- The temporary file. -/
  | writeFile (rules : List PfRule)
  /-- `pfctl -a lattice -f` with the temporary file. -/
  | loadAnchor
  deriving DecidableEq, Repr

/-- `pfctl -sr` answers with its output, which is empty if it fails. -/
def Command.Answer : Command → Type
  | .showRules => String
  | .enable | .loadMain _ | .writeFile _ | .loadAnchor => Exit

abbrev Prog := Program Command Command.Answer

namespace Pfctl

def enable : Prog Exit := perform Command.enable

def showRules : Prog String := perform Command.showRules

def loadMain (text : String) : Prog Exit := perform (Command.loadMain text)

def writeFile (rules : List PfRule) : Prog Exit := perform (Command.writeFile rules)

def loadAnchor : Prog Exit := perform Command.loadAnchor

end Pfctl

/-! ## The provisioner -/

/-- How the anchor shows in the main ruleset. -/
def anchorText : String := "anchor \"lattice\""

/-- `ensurePFReady`. Whether pf could be enabled is not looked at. -/
def ensurePFReady : Prog Exit := do
  let _ ← Pfctl.enable
  let out ← Pfctl.showRules
  if contains out anchorText then pure (.ok ())
  else do
    match ← Pfctl.loadMain (trimRightChar out '\n' ++ "\n" ++ anchorText ++ "\n") with
    | .error output =>
        pure (.error ("failed to register pf anchor: exit status 1\n" ++ output))
    | .ok _ => pure (.ok ())

/-- The rule for a traffic rule. Its action is not looked at. -/
def passRule (dir : Direction) (tr : TrafficRule) : PfRule := .pass dir tr.peers (namedService tr)

/-- The rules of the anchor. -/
def anchorRules (rule : FirewallRule) : List PfRule :=
  [.block .ingress, .block .egress] ++ rule.ingress.map (passRule .ingress) ++
    rule.egress.map (passRule .egress)

/-- `Provision`. -/
def provision (rule : FirewallRule) : Prog Exit := do
  match ← ensurePFReady with
  | .error err => pure (.error err)
  | .ok _ =>
      match ← Pfctl.writeFile (anchorRules rule) with
      | .error err => pure (.error err)
      | .ok _ =>
          match ← Pfctl.loadAnchor with
          | .error output => pure (.error ("pfctl command failed: exit status 1\n" ++ output))
          | .ok _ => pure (.ok ())

/-! ## The machine -/

structure Machine where
  enabled : Bool := false
  /-- The main ruleset, as `pfctl -sr` prints it. -/
  main : String := ""
  file : List PfRule := []
  /-- The rules of the anchor. -/
  anchor : List PfRule := []

/-- The tool, next to a reading of addresses and protocols: what a list of hosts stands for and
which rulesets it refuses. Hosts in a list stand each for itself; what an empty list stands for,
if it is not refused, is left open. -/
structure Pf (R : Reading) where
  hosts : List String → IP → Bool
  hosts_of_ne_nil : ∀ list ip, list ≠ [] → hosts list ip = list.any (R.address · ip)
  refuses : String → Option String

namespace Pf

variable {R : Reading} (pf : Pf R)

/-- A command as the tool carries it out. -/
def step (interfaceName : String) : Command → Machine → Except String Machine
  | .enable, m => .ok { m with enabled := true }
  | .showRules, m => .ok m
  | .loadMain text, m =>
      match pf.refuses text with
      | some output => .error output
      | none => .ok { m with main := text }
  | .writeFile rules, m => .ok { m with file := rules }
  | .loadAnchor, m =>
      match pf.refuses (String.join (m.file.map (PfRule.text interfaceName))) with
      | some output => .error output
      | none => .ok { m with anchor := m.file }

/-- The answer to a command, and the machine after it. -/
def serve (interfaceName : String) (faults : ℕ → Option String) :
    (c : Command) → Semantics.Host Machine → c.Answer × Semantics.Host Machine
  | .enable, h => Shell.exec (pf.step interfaceName) faults .enable h
  | .showRules, h =>
      let r := Shell.exec (pf.step interfaceName) faults .showRules h
      (match r.1 with
        | .ok _ => h.state.main
        | .error _ => "", r.2)
  | .loadMain text, h => Shell.exec (pf.step interfaceName) faults (.loadMain text) h
  | .writeFile rules, h => Shell.exec (pf.step interfaceName) faults (.writeFile rules) h
  | .loadAnchor, h => Shell.exec (pf.step interfaceName) faults .loadAnchor h

/-- The rule matches a packet on the lattice interface. -/
def ruleMatches (dir : Direction) (pkt : Packet) : PfRule → Bool
  | .block d => d == dir
  | .pass d hosts service =>
      d == dir && pf.hosts hosts pkt.remote && serviceMatches R pkt service

def isPass : PfRule → Bool
  | .block _ => false
  | .pass _ _ _ => true

/-- The packet is let through: pf is off or does not evaluate the anchor, or the last rule that
matches is a `pass`. -/
def letsThrough (m : Machine) (dir : Direction) (pkt : Packet) : Bool :=
  !m.enabled || !contains m.main anchorText ||
    FirstMatch.passes (pf.ruleMatches dir pkt) isPass m.anchor.reverse

end Pf

end Wireflow.Agent.Darwin
