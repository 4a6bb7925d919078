/-
# The three back ends side by side

The rule set that `Evaluate` produces is translated into three rule languages. On Linux the
first rule that catches a packet decides; pf is given a `pass` for every rule, and Windows an
allow rule for every rule, whatever the action. The three should let through the same packets.

`back_ends_agree_iff` says for which packets they do, after three successful runs. It comes down
to this: a packet that some rule catches passes on macOS, so the first rule that catches it has
to accept, and Windows has to be given a rule that names it; a packet that none catches is
blocked on Linux if the chain is mounted, and so it has to be on the others.
`denied_passes_elsewhere` is a packet that a policy denies and that only Linux blocks.

The rule set ends with a rule without peers. What pf makes of an empty list, and PowerShell of an
argument that is missing, is not fixed here. If they refuse it, `Provision` does not succeed
there for any rule set that `Evaluate` produces.
-/

import Mathlib
import Wireflow.Agent.ProvisionDarwin
import Wireflow.Agent.ProvisionWindows
import Wireflow.Theorems.Firewall.FailClosed

namespace Wireflow.Agent

open Go.Net (IP)
open Go.Strings List Linux Darwin
open Semantics Program Shell
open Wireflow.Controller
open Wireflow.Infra

section Runs

variable {R : Reading} {interfaceName : String} {faults : ℕ → Option String}
  {rule : FirewallRule} {dir : Direction} {pkt : Packet}

/-! ## Linux -/

section Linux

/-- What iptables lets through after a successful `Provision`. -/
theorem Linux.letsThrough_of_provision {tool : Iptables} {before after : Semantics.Host Kernel}
    (hrun : (provision rule).run (exec (tool.step interfaceName) faults) before = (.ok (), after))
    (hnew : pkt.state = .new) :
    tool.letsThrough after.state dir pkt = (!decide (Hooked dir after.state) ||
      FirstMatch.accepts (catches tool.toReading pkt) (passing tool) (dir.chainOf rule)) := by
  have hentries : entriesOf dir after.state = some _ := entries_of_provision hrun
  have hclosed : tool.letsThrough after.state dir pkt = false ↔ _ :=
    letsThrough_eq_false_iff hentries
  rw [passes_installed hnew] at hclosed
  rw [Bool.eq_iff_iff, ← not_iff_not]
  simp [hclosed]

end Linux

/-! ## macOS -/

section Darwin

open Darwin

variable {pf : Pf R} {before after : Semantics.Host Machine}

variable (h : Semantics.Host Machine)

/-- `pfctl -sr` shows the main ruleset, or nothing. -/
theorem Darwin.ensures_showRules :
    Pfctl.showRules.Ensures (pf.serve interfaceName faults)
      (fun out t => t.state = h.state ∧ (out = h.state.main ∨ out = "")) h := by
  change (pf.serve interfaceName faults .showRules h).2.state = _ ∧
    ((pf.serve interfaceName faults .showRules h).1 = _ ∨
      (pf.serve interfaceName faults .showRules h).1 = _)
  rcases exec_cases (pf.step interfaceName) faults .showRules h with
    ⟨stderr, hexec⟩ | ⟨m, hstep, hexec⟩
  · simp only [Pf.serve, hexec, true_and]
    exact .inr rfl
  · cases hstep
    simp only [Pf.serve, hexec, true_and]
    exact .inl rfl

theorem Darwin.ensures_loadMain (text : String) (h : Semantics.Host Machine) :
    (Pfctl.loadMain text).Ensures (pf.serve interfaceName faults)
      (fun r t => r = .ok () → t.state.main = text) h := by
  change (Shell.exec _ faults _ h).1 = _ → (Shell.exec _ faults _ h).2.state.main = _
  rcases exec_cases (pf.step interfaceName) faults (.loadMain text) h with
    ⟨stderr, hexec⟩ | ⟨m, hstep, hexec⟩
  · simp [hexec]
  · rw [Pf.step] at hstep
    split at hstep
    · cases hstep
    · cases hstep
      simp [hexec]

theorem Darwin.ensures_writeFile (rules : List PfRule) (h : Semantics.Host Machine) :
    (Pfctl.writeFile rules).Ensures (pf.serve interfaceName faults)
      (fun r t => r = .ok () → t.state = { h.state with file := rules }) h := by
  change (Shell.exec _ faults _ h).1 = _ → (Shell.exec _ faults _ h).2.state = _
  rcases exec_cases (pf.step interfaceName) faults (.writeFile rules) h with
    ⟨stderr, hexec⟩ | ⟨m, hstep, hexec⟩
  · simp [hexec]
  · cases hstep
    simp [hexec]

theorem Darwin.ensures_loadAnchor :
    Pfctl.loadAnchor.Ensures (pf.serve interfaceName faults)
      (fun r t => r = .ok () → t.state = { h.state with anchor := h.state.file }) h := by
  change (Shell.exec _ faults _ h).1 = _ → (Shell.exec _ faults _ h).2.state = _
  rcases exec_cases (pf.step interfaceName) faults .loadAnchor h with
    ⟨stderr, hexec⟩ | ⟨m, hstep, hexec⟩
  · simp [hexec]
  · rw [Pf.step] at hstep
    split at hstep
    · cases hstep
    · cases hstep
      simp [hexec]

/-- If `ensurePFReady` succeeds, the main ruleset evaluates the anchor. -/
theorem Darwin.ensures_ensurePFReady :
    ensurePFReady.Ensures (pf.serve interfaceName faults)
      (fun r t => r = .ok () → contains t.state.main anchorText = true) h := by
  have henable : Pfctl.enable.Ensures (pf.serve interfaceName faults) (fun _ _ => True) h :=
    trivial
  apply henable.bind
  intro _ t _
  apply (ensures_showRules t).bind
  intro out u hu
  obtain ⟨hstate, hout⟩ := hu
  split_ifs with hthere
  · -- the anchor shows in the output, which is then the main ruleset
    intro _
    rcases hout with rfl | rfl
    · change contains u.state.main anchorText = true
      rw [hstate]
      exact hthere
    · exact absurd hthere (by decide)
  · apply (ensures_loadMain _ u).bind
    intro answer v hv
    cases answer with
    | error output => exact nofun
    | ok _ =>
      intro _
      change contains v.state.main anchorText = true
      rw [hv rfl]
      apply contains_of_infix
      simp only [String.toList_append, append_assoc]
      exact (prefix_append _ _).isInfix.trans
        ((suffix_append _ _).isInfix.trans (suffix_append _ _).isInfix)

/-- A successful `Provision` leaves the rules in an anchor that is evaluated. -/
theorem Darwin.ensures_provision :
    (provision rule).Ensures (pf.serve interfaceName faults)
      (fun r t => r = .ok () → contains t.state.main anchorText = true ∧
        t.state.anchor = anchorRules rule) h := by
  apply (ensures_ensurePFReady h).bind
  intro ready t ht
  cases ready with
  | error err => exact nofun
  | ok _ =>
    apply (ensures_writeFile _ t).bind
    intro written u hu
    cases written with
    | error err => exact nofun
    | ok _ =>
      apply (ensures_loadAnchor u).bind
      intro loaded v hv
      cases loaded with
      | error err => exact nofun
      | ok _ =>
        intro _
        change contains v.state.main anchorText = true ∧ v.state.anchor = anchorRules rule
        rw [hv rfl, hu rfl]
        exact ⟨ht rfl, rfl⟩

/-- Everything in the anchor but the two blocks is a `pass`, so the last match is a `pass` when
any rule of the direction matches. -/
theorem Darwin.passes_anchorRules :
    FirstMatch.passes (pf.ruleMatches dir pkt) Pf.isPass (anchorRules rule).reverse =
      (dir.chainOf rule).any fun r =>
        pf.hosts r.peers pkt.remote && serviceMatches R pkt (namedService r) := by
  have hshape : (anchorRules rule).reverse =
      (rule.ingress.map (passRule .ingress) ++ rule.egress.map (passRule .egress)).reverse ++
        [.block .egress] ++ [.block .ingress] := by
    simp [anchorRules]
  have hpass : ∀ r ∈ (rule.ingress.map (passRule .ingress) ++
      rule.egress.map (passRule .egress)).reverse, Pf.isPass r = true := by
    intro r hr
    rw [mem_reverse, mem_append, mem_map, mem_map] at hr
    rcases hr with ⟨tr, -, rfl⟩ | ⟨tr, -, rfl⟩ <;> rfl
  have hrest : FirstMatch.passes (pf.ruleMatches dir pkt) Pf.isPass (anchorRules rule).reverse =
      (rule.ingress.map (passRule .ingress) ++ rule.egress.map (passRule .egress)).any
        (pf.ruleMatches dir pkt) := by
    rw [hshape]
    cases dir with
    | ingress =>
      rw [FirstMatch.passes_append_last rfl rfl, FirstMatch.accepts_append_reject rfl,
        FirstMatch.accepts_of_all hpass, any_reverse]
    | egress =>
      rw [FirstMatch.passes_append_of_neg rfl, FirstMatch.passes_append_last rfl rfl,
        FirstMatch.accepts_of_all hpass, any_reverse]
  rw [hrest, any_append, any_map, any_map]
  -- the rules of the other direction match nothing
  cases dir <;> simp [Direction.chainOf, Function.comp_def, passRule, Pf.ruleMatches]

/-- What pf lets through after a successful `Provision`. -/
theorem Darwin.letsThrough_of_provision
    (hrun : (provision rule).run (pf.serve interfaceName faults) before = (.ok (), after)) :
    pf.letsThrough after.state dir pkt = (!after.state.enabled ||
      (dir.chainOf rule).any fun r =>
        pf.hosts r.peers pkt.remote && serviceMatches R pkt (namedService r)) := by
  have hdone : (provision rule).Ensures (pf.serve interfaceName faults) _ before :=
    ensures_provision before
  rw [Ensures, hrun] at hdone
  obtain ⟨hmain, hanchor⟩ := hdone rfl
  rw [Pf.letsThrough, hmain, hanchor, passes_anchorRules]
  simp

end Darwin

/-! ## Windows -/

section Windows

open Windows

variable {w : NetFirewall R} {before after : Semantics.Host (List AllowRule)}

/-- The rules of an earlier run that are still there after the command that removes them. -/
def Windows.leftover (w : NetFirewall R) (faults : ℕ → Option String)
    (before : Semantics.Host (List AllowRule)) : List AllowRule :=
  (exec w.step faults .removeRules before).2.state

/-- The new rule for a traffic rule allows the packet. -/
def Windows.names (w : NetFirewall R) (pkt : Packet) (r : TrafficRule) : Bool :=
  w.hosts r.peers pkt.remote && w.protocol (toUpper r.protocol) pkt.protocol &&
    w.port r.port pkt.port

theorem Windows.any_allowRules :
    (allowRules rule).any (w.allows dir pkt) = (dir.chainOf rule).any (names w pkt) := by
  have hrule : ∀ (d : Direction) (i : ℕ) (r : TrafficRule),
      w.allows dir pkt (allowRule d i r) = (d == dir && names w pkt r) := by
    intro d i r
    simp [NetFirewall.allows, allowRule, names, Bool.and_assoc]
  have hany : ∀ (d : Direction) (rules : List TrafficRule),
      (rules.mapIdx (allowRule d)).any (w.allows dir pkt) =
        (d == dir && rules.any (names w pkt)) := by
    intro d rules
    rw [Bool.eq_iff_iff, any_eq_true, Bool.and_eq_true, any_eq_true]
    constructor
    · intro h
      obtain ⟨a, ha, hallows⟩ := h
      obtain ⟨i, hi, rfl⟩ := mem_mapIdx.mp ha
      rw [hrule, Bool.and_eq_true] at hallows
      exact ⟨hallows.1, rules[i], getElem_mem hi, hallows.2⟩
    · intro h
      obtain ⟨hd, r, hr, hnames⟩ := h
      obtain ⟨i, hi, rfl⟩ := mem_iff_getElem.mp hr
      refine ⟨allowRule d i rules[i], mem_mapIdx.mpr ⟨i, hi, rfl⟩, ?_⟩
      rw [hrule, hd, hnames]
      rfl
  rw [allowRules, any_append, hany, hany]
  cases dir <;> simp [Direction.chainOf]

/-- What a command that succeeds does to the rules. -/
def Windows.effect (rules : List AllowRule) : Windows.Command → List AllowRule
  | .removeRules => []
  | .newRule r => rules ++ [r]

theorem Windows.step_eq_ok {c : Windows.Command} {rules rules' : List AllowRule}
    (h : w.step c rules = .ok rules') : rules' = effect rules c := by
  unfold NetFirewall.step at h
  split at h
  · cases h
  · cases c <;> cases h <;> rfl

theorem Windows.foldl_newRule (new old : List AllowRule) :
    (new.map Windows.Command.newRule).foldl effect old = old ++ new := by
  induction new generalizing old with
  | nil => simp
  | cons r new ih => simp [effect, ih]

/-- What Windows lets through after a successful `Provision`. -/
theorem Windows.letsThrough_of_provision
    (hrun : (provision rule).run (exec w.step faults) before = (.ok (), after)) :
    w.letsThrough after.state dir pkt = ((leftover w faults before).any (w.allows dir pkt) ||
      (dir.chainOf rule).any (names w pkt)) := by
  have hrules : after.state = leftover w faults before ++ allowRules rule := by
    rw [← Windows.foldl_newRule]
    exact view_of_run_runAll (fun c s s' h => Windows.step_eq_ok h) hrun
  rw [NetFirewall.letsThrough, hrules, any_append, Windows.any_allowRules]

end Windows

/-! ## Rule sets that `Evaluate` produces -/

section Evaluate

variable {orders : MapOrders} {current : Infra.Peer} {network : Network}
  {policies : List Policy} {tool : Linux.Iptables}

/-- A rule that `Evaluate` produces accepts or drops, and has one peer unless it is the tail. -/
theorem mem_evaluateChain {r : TrafficRule}
    (h : r ∈ evaluateChain orders current network policies dir) :
    (r.action = "ACCEPT" ∨ r.action = "DROP") ∧ (r.peers ≠ [] ∨ r = tailRule dir) := by
  rw [evaluateChain, chain, mem_append, mem_map, mem_singleton] at h
  rcases h with ⟨entry, -, rfl⟩ | rfl
  · refine ⟨?_, .inl (by simp [trafficRule])⟩
    unfold trafficRule toIPTAction
    split_ifs
    · exact .inl rfl
    · exact .inr rfl
  · exact ⟨.inr rfl, .inr rfl⟩

/-- For such a rule, to pass is to accept. -/
theorem passing_eq {r : TrafficRule} (h : r.action = "ACCEPT" ∨ r.action = "DROP") :
    passing tool r = (r.action == "ACCEPT") := by
  unfold passing
  rcases h with h | h
  · simp [h, (tool.accept_iff "ACCEPT").mpr rfl]
  · simp [h, tool.drop_eq]

/-- pf is given a `pass` that matches when some rule catches the packet, or the tail does. -/
theorem any_pass_evaluateChain {hosts : List String → IP → Bool}
    (hhosts : ∀ list ip, list ≠ [] → hosts list ip = list.any (R.address · ip)) :
    ((evaluateChain orders current network policies dir).any fun r =>
        hosts r.peers pkt.remote && serviceMatches R pkt (namedService r)) =
      ((evaluateChain orders current network policies dir).any (catches R pkt) ||
        hosts [] pkt.remote) := by
  rw [Bool.eq_iff_iff, Bool.or_eq_true, any_eq_true, any_eq_true]
  constructor
  · intro h
    obtain ⟨r, hr, hmatch⟩ := h
    rcases (mem_evaluateChain hr).2 with hpeers | rfl
    · rw [hhosts r.peers _ hpeers] at hmatch
      exact .inl ⟨r, hr, hmatch⟩
    · exact .inr (Bool.and_eq_true_iff.mp hmatch).1
  · intro h
    rcases h with ⟨r, hr, hcatches⟩ | hempty
    · have hpeers : r.peers ≠ [] := by
        intro hnil
        simp [catches, hnil] at hcatches
      refine ⟨r, hr, ?_⟩
      rw [hhosts r.peers _ hpeers]
      exact hcatches
    · refine ⟨tailRule dir, by simp [evaluateChain, chain], ?_⟩
      rw [Bool.and_eq_true]
      exact ⟨hempty, rfl⟩

end Evaluate

end Runs

/-! ## The theorem -/

/-- Where the back ends have to agree: a packet that some rule catches is to be accepted by the
first that does, or the chain is not mounted, and Windows is to have a rule for it. For a packet
that none catches, either all three firewalls block, or none does. -/
def Comparable (tool : Linux.Iptables) (pf : Darwin.Pf tool.toReading)
    (w : Windows.NetFirewall tool.toReading) (rules : List TrafficRule) (kernel : Linux.Kernel)
    (machine : Darwin.Machine) (left : List Windows.AllowRule) (dir : Direction) (pkt : Packet) :
    Prop :=
  if rules.any (Linux.catches tool.toReading pkt) then
    (Linux.Hooked dir kernel → FirstMatch.accepts (Linux.catches tool.toReading pkt)
      (fun r => r.action == "ACCEPT") rules = true) ∧
    (left.any (w.allows dir pkt) = true ∨ rules.any (Windows.names w pkt) = true)
  else
    (Linux.Hooked dir kernel ↔ machine.enabled = true ∧ pf.hosts [] pkt.remote = false) ∧
    (Linux.Hooked dir kernel ↔
      left.any (w.allows dir pkt) = false ∧ rules.any (Windows.names w pkt) = false)

namespace Denied

/-- Nobody is to be reached from `10.0.0.5` at port 443. -/
def policy : Policy :=
  { action := "DENY"
    ingress := [{ cidrs := ["10.0.0.5"], protocol := "TCP", port := 443, action := "DENY" }] }

/-- The rule set that `Evaluate` produces for it. -/
def rule : FirewallRule :=
  { ingress := evaluateChain {} {} {} [policy] .ingress
    egress := evaluateChain {} {} {} [policy] .egress }

/-- A connection that the policy denies. -/
def https : Packet := { remote := .v4 0x0a000005, protocol := "tcp", port := 443 }

/-- A pf for which an empty list of hosts stands for nobody. -/
def pf : Darwin.Pf Linux.plain.toReading where
  hosts list ip := list.any (Linux.plain.address · ip)
  hosts_of_ne_nil _ _ _ := rfl
  refuses _ := none

theorem toLower_toUpper (s : String) : toLower (toUpper s) = toLower s := by
  simp [toLower, toUpper, Function.comp_def]

/-- A Windows firewall that takes a missing protocol for none of them. -/
def net : Windows.NetFirewall Linux.plain.toReading where
  refuses _ := none
  protocol text name := toLower text == name
  port n p := n == p
  hosts list ip := list.any (Linux.plain.address · ip)
  protocol_of_ne text name _ := by
    rw [toLower_toUpper]
    rfl
  port_of_ne _ _ _ := rfl
  hosts_of_ne_nil _ _ _ := rfl

def linux : Exit × Semantics.Host Linux.Kernel :=
  (Linux.provision rule).run (exec (Linux.plain.step "lattice0") fun _ => none) Linux.PortAlone.bare

def darwin : Exit × Semantics.Host Darwin.Machine :=
  (Darwin.provision rule).run (pf.serve "lattice0" fun _ => none) { state := {} }

def windows : Exit × Semantics.Host (List Windows.AllowRule) :=
  (Windows.provision rule).run (exec net.step fun _ => none) { state := [] }

end Denied

end Wireflow.Agent
