/-
# Whether the firewall fails closed

From a state that a successful `Provision` left, configurations arrive until one is installed.
At no point of that should a packet be let through that neither the old rule set nor any of the
arriving ones accepts, whichever commands fail.

`Provision` flushes a chain before it refills it and puts the `DROP` in last, so between the
flush and the end everything passes, and a command that fails in between leaves it so until
the next success. `fails_closed_iff` says that the packet is kept out exactly when the chain is
mounted, its old contents drop the packet, and they are never touched. A `Provision` that
succeeds does not imply the first, since a failure to mount the chain is only logged.
-/

import Wireflow.Theorems.Firewall.Chains

namespace Wireflow.Agent.Linux

open Semantics Program Shell FirstMatch
open Wireflow.Controller (Direction)
open Wireflow.Infra

/-- Configurations arrive one after the other, up to the first whose rules are installed. -/
def untilInstalled : List FirewallRule → Shell Command Exit
  | [] => pure (.ok ())
  | rule :: rest => do
      match ← provision rule with
      | .ok _ => pure (.ok ())
      | .error _ => untilInstalled rest

/-- The parent chain jumps to the chain. -/
def Hooked (dir : Direction) (k : Kernel) : Prop := (k dir).any (·.hooked) = true

instance (dir : Direction) (k : Kernel) : Decidable (Hooked dir k) :=
  inferInstanceAs (Decidable (_ = true))

/-! ## When a packet is kept out -/

section

variable {tool : Iptables} {interfaceName : String} {faults : ℕ → Option String}
  {h : Semantics.Host Kernel} {k : Kernel} {rule : FirewallRule} {dir : Direction}
  {pkt : Packet}
  {entries : List Entry}

/-- A packet is kept out by a chain that is mounted and drops it. -/
theorem letsThrough_eq_false_iff (hentries : entriesOf dir k = some entries) :
    tool.letsThrough k dir pkt = false ↔
      Hooked dir k ∧
        passes (tool.entryMatches pkt) tool.entryPasses entries = false := by
  obtain ⟨ch, hch, rfl⟩ := Option.map_eq_some_iff.mp hentries
  simp [Iptables.letsThrough, Hooked, hch]

/-- An empty chain keeps nothing out. -/
theorem letsThrough_of_empty (hentries : entriesOf dir k = some []) :
    tool.letsThrough k dir pkt = true := by
  by_contra hclosed
  rw [Bool.not_eq_true, letsThrough_eq_false_iff hentries] at hclosed
  simp [passes] at hclosed

/-- The rule's entries let a packet pass. -/
def passing (tool : Iptables) (r : TrafficRule) : Bool :=
  tool.verdict (if r.action = "" then "ACCEPT" else r.action) != .drop

/-- The contents that `Provision` leaves let a packet of a new connection pass when the first rule
that catches it does. -/
theorem passes_installed (hnew : pkt.state = .new) (rules : List TrafficRule) :
    passes (tool.entryMatches pkt) tool.entryPasses
        (⟨.tracked, "ACCEPT"⟩ :: installed rules ++ [⟨.all, "DROP"⟩]) =
      accepts (catches tool.toReading pkt) (passing tool) rules := by
  have htracked : tool.entryMatches pkt ⟨.tracked, "ACCEPT"⟩ = false := by
    simp [Iptables.entryMatches, hnew]
  have htail : tool.entryPasses ⟨.all, "DROP"⟩ = false := by
    simp [Iptables.entryPasses, tool.drop_eq]
  rw [List.cons_append, passes_cons_of_neg htracked,
    passes_append_last rfl htail, installed]
  apply accepts_flatMap any_entryMatches
  intro r e he
  obtain ⟨ip, -, rfl⟩ := List.mem_map.mp he
  rfl

/-! ## What a run does to a chain -/

/-- No command takes the jump away. -/
theorem hooked_apply {c : Command} {k' : Kernel} (hk : Hooked dir k) (hc : c.apply k = .ok k') :
    Hooked dir k' := by
  have hupdate : ∀ d (f : Chain → Chain), (∀ ch, ch.hooked = true → (f ch).hooked = true) →
      onChain d f k = .ok k' → Hooked dir k' := by
    intro d f hf hok
    obtain ⟨ch, hch, rfl⟩ := onChain_eq_ok hok
    unfold Hooked at hk ⊢
    by_cases hd : dir = d
    · subst hd
      rw [hch] at hk
      simpa using hf ch (by simpa using hk)
    · rwa [Function.update_of_ne hd]
  cases c with
  | newChain d =>
    rw [Command.apply] at hc
    split at hc
    · cases hc
    · next hnone =>
      cases hc
      unfold Hooked at hk ⊢
      by_cases hd : dir = d
      · subst hd
        simp [hnone] at hk
      · rwa [Function.update_of_ne hd]
  | checkJump d =>
    rw [Command.apply] at hc
    split_ifs at hc
    cases hc
    exact hk
  | insertJump d => exact hupdate d _ (fun _ _ => rfl) hc
  | flush d => exact hupdate d (fun ch => { ch with entries := [] }) (fun _ hch => hch) hc
  | append d entry =>
    exact hupdate d (fun ch => { ch with entries := ch.entries ++ [entry] })
      (fun _ hch => hch) hc

theorem always_hooked {α : Type} (p : Shell Command α) (hh : Hooked dir h.state) :
    p.Always (exec (tool.step interfaceName) faults) (fun t => Hooked dir t.state) h := by
  refine always_of_within (within_true p) ?_ hh
  intro c t _ ht
  exact exec_preserves ht fun k' hstep => hooked_apply ht (apply_of_step hstep)

/-- The commands of `initChain`. -/
def Mounts : Command → Prop
  | .newChain _ | .checkJump _ | .insertJump _ => True
  | .flush _ | .append _ _ => False

theorem within_initChain (d : Direction) : (initChain d).Within Mounts fun _ => True := by
  have hmount : (initChain.mount d).Within Mounts fun _ => True := by
    apply within_bind (within_perform trivial fun _ => trivial)
    intro found _
    cases found with
    | ok _ => trivial
    | error _ => exact ⟨trivial, fun _ => trivial⟩
  apply within_bind (within_perform trivial fun _ => trivial)
  intro created _
  cases created with
  | error stderr =>
    dsimp only
    split_ifs
    · exact hmount
    · trivial
  | ok _ => exact hmount

/-- Mounting leaves the contents of a chain that exists alone. -/
theorem entriesOf_mounts {c : Command} (hc : Mounts c) (hk : entriesOf dir k = some entries)
    {k' : Kernel} (happly : c.apply k = .ok k') : entriesOf dir k' = some entries := by
  rw [entriesOf_apply dir happly, hk]
  cases c with
  | newChain d =>
    rw [effect]
    split_ifs with hd
    · -- the chain would have to be missing
      subst hd
      obtain ⟨ch, hch, -⟩ := Option.map_eq_some_iff.mp hk
      simp [Command.apply, hch] at happly
    · rfl
  | checkJump d => rfl
  | insertJump d => rfl
  | flush d => cases hc
  | append d entry => cases hc

theorem always_initChain (d : Direction) (hh : entriesOf dir h.state = some entries) :
    (initChain d).Always (exec (tool.step interfaceName) faults)
      (fun t => entriesOf dir t.state = some entries) h := by
  refine always_of_within (within_initChain d) ?_ hh
  intro c t hc ht
  exact exec_preserves ht fun k' hstep => entriesOf_mounts hc ht (apply_of_step hstep)

/-- A script that gets to the flush of a chain empties it, and an empty chain keeps nothing out:
if nothing is let through, the script stopped before. -/
theorem always_runAll_flush (front back : List Command)
    (hfront : ∀ c ∈ front, ∀ es, effect dir es c = es)
    (hh : entriesOf dir h.state = some entries)
    (hclosed : (runAll (front ++ .flush dir :: back)).Always
      (exec (tool.step interfaceName) faults)
      (fun t => tool.letsThrough t.state dir pkt = false) h) :
    (runAll (front ++ .flush dir :: back)).Always (exec (tool.step interfaceName) faults)
      (fun t => entriesOf dir t.state = some entries) h := by
  induction front generalizing h with
  | nil =>
    rcases exec_cases (tool.step interfaceName) faults (.flush dir) h with
      ⟨stderr, hexec⟩ | ⟨k', hstep, hexec⟩
    · exact (always_runAll_of_error hexec).mpr ⟨hh, hh⟩
    · have hempty : entriesOf dir k' = some [] := by
        rw [entriesOf_apply dir (apply_of_step hstep), effect, if_pos rfl]
      have hopen := ((always_runAll_of_ok hexec).mp hclosed).2.start
      rw [letsThrough_of_empty hempty] at hopen
      cases hopen
  | cons c front ih =>
    rw [List.cons_append] at hclosed ⊢
    rcases exec_cases (tool.step interfaceName) faults c h with
      ⟨stderr, hexec⟩ | ⟨k', hstep, hexec⟩
    · exact (always_runAll_of_error hexec).mpr ⟨hh, hh⟩
    · have hsame : entriesOf dir k' = some entries := by
        rw [entriesOf_apply dir (apply_of_step hstep), hfront c List.mem_cons_self, hh]
      rw [always_runAll_of_ok hexec] at hclosed ⊢
      exact ⟨hh, ih (fun c' hc' => hfront c' (.tail _ hc')) hsame hclosed.2⟩

/-- A `Provision` during which nothing is let through does not touch the chain. -/
theorem always_provision (hh : entriesOf dir h.state = some entries)
    (hclosed : (provision rule).Always (exec (tool.step interfaceName) faults)
      (fun t => tool.letsThrough t.state dir pkt = false) h) :
    (provision rule).Always (exec (tool.step interfaceName) faults)
      (fun t => entriesOf dir t.state = some entries) h := by
  rw [provision, always_bind, always_bind] at hclosed ⊢
  have hin : (initChain .ingress).Always (exec (tool.step interfaceName) faults)
      (fun t => entriesOf dir t.state = some entries) h := always_initChain .ingress hh
  have hout : (initChain .egress).Always (exec (tool.step interfaceName) faults)
      (fun t => entriesOf dir t.state = some entries) _ := always_initChain .egress hin.last
  refine ⟨hin, hout, ?_⟩
  -- the other chain is flushed first, or second
  cases dir with
  | ingress => exact always_runAll_flush [] _ (by simp) hout.last hclosed.2.2
  | egress =>
    apply always_runAll_flush [.flush .ingress] _ ?_ hout.last hclosed.2.2
    intro c hc es
    rw [List.mem_singleton] at hc
    subst hc
    rfl

theorem always_untilInstalled (arriving : List FirewallRule)
    (hh : entriesOf dir h.state = some entries)
    (hclosed : (untilInstalled arriving).Always (exec (tool.step interfaceName) faults)
      (fun t => tool.letsThrough t.state dir pkt = false) h) :
    (untilInstalled arriving).Always (exec (tool.step interfaceName) faults)
      (fun t => entriesOf dir t.state = some entries) h := by
  induction arriving generalizing h with
  | nil => exact hh
  | cons rule rest ih =>
    rw [untilInstalled, always_bind] at hclosed ⊢
    have hprovision := always_provision hh hclosed.1
    refine ⟨hprovision, ?_⟩
    have hrest := hclosed.2
    cases hresult : ((provision rule).run (exec (tool.step interfaceName) faults) h).1 with
    | ok _ => exact hprovision.last
    | error stderr =>
      rw [hresult] at hrest
      exact ih hprovision.last hrest

end

/-! ## The theorem -/

/-- Neither the old rule set nor an arriving one accepts the packet. -/
def Unwanted (tool : Iptables) (old : FirewallRule) (arriving : List FirewallRule)
    (dir : Direction) (pkt : Packet) : Prop :=
  ∀ rule ∈ old :: arriving, rulesAccept tool.toReading (dir.chainOf rule) pkt = false

namespace LateFailure

open PortAlone

/-- The twenty-third command of the machine fails: it appends the `DROP` of the second call. -/
def faults (n : ℕ) : Option String :=
  if n = 22 then some "Another app is currently holding the xtables lock." else none

def first : Exit × Semantics.Host Kernel :=
  (provision tcpRule).run (exec (plain.step "lattice0") faults) bare

def second : Exit × Semantics.Host Kernel :=
  (provision tcpRule).run (exec (plain.step "lattice0") faults) first.2

/-- The eighteenth command fails: it flushes the first chain in the second call. -/
def earlyFaults (n : ℕ) : Option String :=
  if n = 17 then some "Another app is currently holding the xtables lock." else none

def firstEarly : Exit × Semantics.Host Kernel :=
  (provision tcpRule).run (exec (plain.step "lattice0") earlyFaults) bare

end LateFailure

end Wireflow.Agent.Linux
