/-
# The goroutines of a probe

`Node` takes what a goroutine of a probe does as one step. Here the goroutines are taken apart:
`restart`, `Start`, the goroutine that `Start` spawns, and the upgrade to ICE after WRRP has won.
They share the state machine, the current transport, the epoch and the flag that a discovery is
running, and each of their actions on one of these is a step of its own.

A transition with its callback is one step, since it holds the lock of the state machine. The
remote has sent its information, and the configurator reports no error.
-/

import Wireflow.Agent.Node

namespace Wireflow.Agent

/-- `Transport`. -/
structure Transport where
  type : TransportType
  remoteAddr : String
  deriving DecidableEq, Repr

/-- The ways in which `onFailure` goes on. -/
inductive Failure
  /-- The dialer was closed: restart at once. -/
  | dialerClosed
  /-- Restart after ten seconds. -/
  | transient
  /-- A minute of failures is over. -/
  | unreachable
  deriving DecidableEq, Repr

/-- What `discover` returns. -/
inductive Outcome
  | connected (transport : Transport)
  | failed (failure : Failure)
  deriving DecidableEq, Repr

/-- The next action of a goroutine. -/
inductive Pc
  | idle
  /-- `restart` raises the epoch. -/
  | restarting
  /-- `restart` takes the flag away. -/
  | releasing
  /-- `Start` takes the flag. -/
  | starting
  /-- `Start` reads the epoch. -/
  | started
  /-- `Start` changes to `probing`. -/
  | probing (epoch : UInt64)
  | discovering (epoch : UInt64)
  /-- The epoch is compared. -/
  | returned (epoch : UInt64) (outcome : Outcome)
  /-- The flag is taken away. -/
  | checked (outcome : Outcome)
  /-- `onSuccess` or `handleUpgradeTransport` assigns the transport. -/
  | succeeding (transport : Transport)
  /-- And changes the state. -/
  | assigned (transport : Transport)
  /-- `onFailure` changes the state. -/
  | failing (failure : Failure)
  deriving DecidableEq, Repr

def Pc.isAssigned : Pc → Bool
  | .assigned _ => true
  | _ => false

/-- What is decided outside of the probe. -/
inductive Choice
  /-- `Start` is called. -/
  | start
  /-- `restart` is called, by a timer or because of a handshake. -/
  | restart
  /-- The ICE dialer connects after WRRP has won. -/
  | upgrade (remoteAddr : String)
  /-- `discover` returns. -/
  | outcome (result : Outcome)
  /-- The goroutine goes on. -/
  | go
  deriving DecidableEq, Repr

/-- The state that the goroutines share, and where they are. -/
structure Discovery (ι : Type) where
  state : PeerState := .created
  running : Bool := false
  epoch : UInt64 := 0
  currentTransport : Option Transport := none
  /-- The endpoint in the device. -/
  endpoint : Option String := none
  /-- Discoveries that WRRP has won and whose ICE dialer has not connected. -/
  wrrpWon : ℕ := 0
  pc : ι → Pc := fun _ => .idle

namespace Failure

/-- The state `onFailure` changes to. -/
def target : Failure → PeerState
  | .dialerClosed | .transient => .failed
  | .unreachable => .closed

/-- What the goroutine does after that. -/
def next : Failure → Pc
  | .dialerClosed => .restarting
  | .transient | .unreachable => .idle

end Failure

namespace Outcome

/-- `onSuccess` or `onFailure`. -/
def next : Outcome → Pc
  | .connected transport => .succeeding transport
  | .failed failure => .failing failure

/-- The ICE dialer goes on when WRRP has won. -/
def upgrades : Outcome → ℕ
  | .connected ⟨.wrrp, _⟩ => 1
  | .connected ⟨.ice, _⟩ | .failed _ => 0

end Outcome

variable (fake : String)

/-- The endpoint of a transport; `fake` is the address that stands for the remote at the relay. -/
def Transport.endpoint (t : Transport) : String :=
  match t.type with
  | .wrrp => fake
  | .ice => t.remoteAddr

namespace Discovery

variable {ι : Type}

/-- The callback that `NewProbe` installs: the endpoint after a transition. -/
def onTransition (source target : PeerState) (d : Discovery ι) : Option String :=
  if source = .probing ∧ (target = .iceReady ∨ target = .wrrpReady) then
    match d.currentTransport with
    | none => d.endpoint
    | some t => some (t.endpoint fake)
  else if source = .wrrpReady ∧ target = .iceReady then
    match d.currentTransport with
    | none => d.endpoint
    | some t => some t.remoteAddr
  else if target = .failed ∨ target = .closed then none
  else d.endpoint

/-- `Transition`, whose error is ignored everywhere. -/
def transition (target : PeerState) (d : Discovery ι) : Discovery ι :=
  if target ∈ allowedTransitions d.state then
    { d with state := target, endpoint := d.onTransition fake d.state target }
  else d

@[simp] theorem pc_transition (target : PeerState) (d : Discovery ι) :
    (d.transition fake target).pc = d.pc := by
  unfold transition
  split_ifs <;> rfl

@[simp] theorem currentTransport_transition (target : PeerState)
    (d : Discovery ι) : (d.transition fake target).currentTransport = d.currentTransport := by
  unfold transition
  split_ifs <;> rfl

variable [DecidableEq ι]

def goto (i : ι) (next : Pc) (d : Discovery ι) : Discovery ι :=
  { d with pc := Function.update d.pc i next }

section

variable (i : ι) (next : Pc) (d : Discovery ι)

@[simp] theorem state_goto : (d.goto i next).state = d.state := rfl

@[simp] theorem currentTransport_goto : (d.goto i next).currentTransport = d.currentTransport := rfl

@[simp] theorem endpoint_goto : (d.goto i next).endpoint = d.endpoint := rfl

@[simp] theorem pc_goto : (d.goto i next).pc = Function.update d.pc i next := rfl

end

/-- One action of a goroutine. -/
def step (d : Discovery ι) (action : ι × Choice) : Discovery ι :=
  let i := action.1
  match d.pc i, action.2 with
  | .idle, .start => d.goto i .starting
  | .idle, .restart => d.goto i .restarting
  | .idle, .upgrade remoteAddr =>
      if d.wrrpWon = 0 then d
      else { d with wrrpWon := d.wrrpWon - 1 }.goto i (.succeeding ⟨.ice, remoteAddr⟩)
  | .restarting, .go => { d with epoch := d.epoch + 1 }.goto i .releasing
  | .releasing, .go => { d with running := false }.goto i .starting
  | .starting, .go =>
      if d.running then d.goto i .idle else { d with running := true }.goto i .started
  | .started, .go => d.goto i (.probing d.epoch)
  | .probing epoch, .go => (d.transition fake .probing).goto i (.discovering epoch)
  | .discovering epoch, .outcome result =>
      { d with wrrpWon := d.wrrpWon + result.upgrades }.goto i (.returned epoch result)
  | .returned epoch result, .go =>
      if d.epoch = epoch then d.goto i (.checked result) else d.goto i .idle
  | .checked result, .go => { d with running := false }.goto i result.next
  | .succeeding t, .go => { d with currentTransport := some t }.goto i (.assigned t)
  | .assigned t, .go => (d.transition fake (Node.readyState t.type)).goto i .idle
  | .failing failure, .go => (d.transition fake failure.target).goto i failure.next
  | _, _ => d

def run (d : Discovery ι) (actions : List (ι × Choice)) : Discovery ι :=
  actions.foldl (step fake) d

end Discovery

end Wireflow.Agent
