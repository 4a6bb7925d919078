/-
# The life of a probe

`Discovery` takes what `discover` returns as given. Here `discover` is taken apart as well: the
goroutines of the two dialers, the channels on which they report, the grace timer and the flag of
the late upgrade. Around it stands all that a probe goes through, from `Start` over failures,
delayed restarts and fresh dialers to `Close`.

A call of `Start`, `restart` or `Close` occupies a *slot*. The goroutine that `Start` spawns goes on
in the slot of its caller, and the goroutines of the dialers belong to the slot too, so that a slot
is free again when all of them have returned. Every access to something shared is a step.

Both callers of `Start` pass `context.Background()`, so `discover` never sees its context end. A
goroutine that dereferences a dialer which `Close` has taken away stays where it is.
-/

import Wireflow.Agent.Discovery

namespace Wireflow.Agent

/-- What a dialer returns when it does not connect. -/
inductive DialError
  /-- `ErrDialerClosed`. -/
  | dialerClosed
  | other
  deriving DecidableEq, Repr

namespace IceDialer

/-- `Close`, which acts once. -/
def close (d : IceDialer) : IceDialer :=
  if d.closed then d else { d with closed := true, agent := false }

/-- `Handle` of a handshake: an agent is made, unless that fails. A handshake on an active agent is
taken for a restart of the remote. -/
def handleSyn (fails : Bool) (d : IceDialer) : IceDialer :=
  if d.closed then d
  else if d.agent then d.close
  else { d with agent := !fails }

end IceDialer

namespace Lifecycle

/-- The next action of a call of `restart`, `Start` or `Close`, or of the goroutine of `Start`. -/
inductive Main
  | idle
  /-- `restart` replaces the dialers. -/
  | restarting
  /-- `restart` raises the epoch. -/
  | replaced
  /-- `restart` takes the flag away. -/
  | raised
  /-- `Start` takes the flag. -/
  | starting
  /-- `Start` reads the epoch. -/
  | started
  /-- `Start` changes to `probing` and spawns the goroutines. -/
  | probing
  /-- `discover` waits for the dialers, of which some have failed. -/
  | racing (failed : ℕ)
  /-- WRRP has connected, and ICE has half a second. -/
  | grace (transport : Transport)
  /-- That is over, and the flag of the late upgrade is to be set. -/
  | overtime (transport : Transport)
  /-- `discover` has returned, and the epoch is to be compared. -/
  | returned (result : Except DialError Transport)
  /-- The flag is to be taken away. -/
  | checked (result : Except DialError Transport)
  /-- `onSuccess` assigns the transport. -/
  | succeeding (transport : Transport)
  /-- `onSuccess` changes the state. -/
  | assigned (transport : Transport)
  /-- `onFailure` looks at the clock. -/
  | failing (err : DialError)
  /-- `onFailure` changes the state. -/
  | failed (failure : Failure)
  /-- `onFailure` sets the timer of a restart. -/
  | scheduling
  /-- `Close` takes the dialers and their constructors away. -/
  | closing
  /-- `Close` closes the dialer that was there. -/
  | closes (ice : Option ℕ)
  deriving DecidableEq

/-- The next action of the goroutine of a dialer. -/
inductive Dialing
  /-- It has returned, or was never spawned. -/
  | rest
  /-- The dialer is read from the probe. -/
  | preparing
  | prepares (dialer : ℕ)
  /-- The dialer is read a second time. -/
  | prepared
  | dialing (dialer : ℕ)
  /-- The transport is to be sent to `discover`. -/
  | sending (transport : Transport)
  /-- The flag of the late upgrade is to be read. -/
  | loading (transport : Transport)
  /-- `handleUpgradeTransport` assigns the transport. -/
  | upgrading (transport : Transport)
  /-- `handleUpgradeTransport` changes the state. -/
  | upgraded (transport : Transport)
  deriving DecidableEq

/-- A call with its discovery. -/
structure Slot where
  main : Main := .idle
  /-- `myEpoch`. -/
  epoch : UInt64 := 0
  goroutine : TransportType → Dialing := fun _ => .rest
  /-- The channel `result`, which never blocks. -/
  result : List Transport := []
  /-- The channel `errs`, which never blocks. -/
  errs : List DialError := []
  wrrpWon : Bool := false

/-- The goroutine of a `Prepare` that sends handshakes. -/
structure Sender where
  type : TransportType
  dialer : ℕ
  /-- The epoch of the discovery. -/
  epoch : UInt64
  deriving DecidableEq, Repr

/-- What a probe is made with. -/
structure Config where
  enableWrrp : Bool
  /-- The local id is the larger one. -/
  initiator : Bool
  /-- The address that stands for the remote at the relay. -/
  fake : String

/-- `dialerCount`. -/
def Config.dialerCount (cfg : Config) : ℕ := if cfg.enableWrrp then 2 else 1

/-- `time.Second`. -/
def second : ℕ := 1000000000

end Lifecycle

open Lifecycle Function

/-- `Probe`, with the dialers and goroutines it has made. Dialers are numbered; those of one restart
have the same number. -/
structure Lifecycle (ι : Type) where
  state : PeerState := .created
  running : Bool := false
  epoch : UInt64 := 0
  currentTransport : Option Transport := none
  /-- The endpoint in the device. -/
  endpoint : Option String := none
  /-- The peer is in the device without an endpoint. -/
  registered : Bool := false
  /-- `Close` has taken the constructors. -/
  shut : Bool := false
  /-- `iceDialer` and `wrrpDialer`. -/
  dialer : TransportType → Option ℕ := fun _ => some 0
  made : ℕ := 1
  ice : ℕ → IceDialer := fun _ => {}
  senders : List Sender := []
  /-- Dialers that close half a second after they have connected. -/
  lateCloses : List ℕ := []
  now : ℕ := 0
  firstFailureAt : Option ℕ := none
  /-- When the delayed restarts are due. -/
  timers : List ℕ := []
  slot : ι → Slot := fun _ => {}

namespace Lifecycle

variable {ι : Type}

/-- The peer has an entry in the device. -/
def entry (m : Lifecycle ι) : Bool := m.registered || m.endpoint.isSome

/-- What `Discovery` sees of the probe. -/
def link (m : Lifecycle ι) : Discovery Empty :=
  { state := m.state, currentTransport := m.currentTransport, endpoint := m.endpoint }

/-- `Transition`, with the callback that `NewProbe` installs. -/
def transition (fake : String) (target : PeerState) (m : Lifecycle ι) : Lifecycle ι :=
  { m with
    state := (m.link.transition fake target).state
    endpoint := (m.link.transition fake target).endpoint
    registered :=
      if target ∈ allowedTransitions m.state ∧ (target = .failed ∨ target = .closed) then false
      else m.registered }

@[simp] theorem state_transition (fake : String) (target : PeerState) (m : Lifecycle ι) :
    (m.transition fake target).state =
      if target ∈ allowedTransitions m.state then target else m.state := by
  unfold transition link Discovery.transition
  split_ifs <;> rfl

/-- Do something to an ICE dialer. -/
def onIce (f : IceDialer → IceDialer) (d : ℕ) (m : Lifecycle ι) : Lifecycle ι :=
  { m with ice := update m.ice d (f (m.ice d)) }

@[simp] theorem ice_onIce (f : IceDialer → IceDialer) (d : ℕ) (m : Lifecycle ι) :
    (m.onIce f d).ice = update m.ice d (f (m.ice d)) := rfl

/-- `Prepare`. With ICE only the initiator makes an agent and sends handshakes. An earlier `Prepare`
of the same dialer is cancelled. -/
def prepare (cfg : Config) (type : TransportType) (d : ℕ) (epoch : UInt64) (m : Lifecycle ι) :
    Lifecycle ι :=
  { m with
    ice :=
      if type = .ice ∧ cfg.initiator then
        update m.ice d { m.ice d with agent := true }
      else m.ice
    senders :=
      if type = .wrrp ∨ cfg.initiator then
        ⟨type, d, epoch⟩ :: m.senders.filter fun s => ¬(s.type = type ∧ s.dialer = d)
      else m.senders }

@[simp] theorem closed_prepare (cfg : Config) (type : TransportType) (d : ℕ) (epoch : UInt64)
    (m : Lifecycle ι) (n : ℕ) : ((m.prepare cfg type d epoch).ice n).closed = (m.ice n).closed := by
  simp only [prepare]
  split_ifs
  · by_cases hn : n = d
    · rw [hn, update_self]
    · rw [update_of_ne hn]
  · rfl

/-- What `Dial` leaves behind when it connects. -/
def connect (type : TransportType) (d : ℕ) (m : Lifecycle ι) : Lifecycle ι :=
  { m with
    lateCloses :=
      match type with
      | .wrrp => m.lateCloses
      | .ice => d :: m.lateCloses }

/-- Whether `Dial` may return this: an agent connects, and only a closed dialer says so. -/
def mayReturn (type : TransportType) (d : ℕ) (result : Except DialError String)
    (m : Lifecycle ι) : Bool :=
  match type, result with
  | .ice, .ok _ => (m.ice d).agent
  | .ice, .error .dialerClosed => (m.ice d).closed
  | .wrrp, .error .dialerClosed => false
  | .wrrp, .ok _ | _, .error .other => true

/-- How `onFailure` goes on at some time, and the start of the failures that it remembers. -/
def onFailure (err : DialError) (m : Lifecycle ι) : Failure × Option ℕ :=
  match err with
  | .dialerClosed => (.dialerClosed, none)
  | .other =>
      let first := m.firstFailureAt.getD m.now
      (if 60 * second ≤ m.now - first then .unreachable else .transient, some first)

/-- What a goroutine does after the state is `failed` or `closed`. -/
def afterFailure : Failure → Main
  | .dialerClosed => .restarting
  | .transient => .scheduling
  | .unreachable => .idle

/-- `onSuccess` or `onFailure`. -/
def afterDiscover : Except DialError Transport → Main
  | .ok t => .succeeding t
  | .error err => .failing err

/-- What `discover` does with the first transport it gets. -/
def afterResult (cfg : Config) (t : Transport) : Main :=
  if t.type = .wrrp ∧ cfg.enableWrrp then .grace t else .returned (.ok t)

/-- What `discover` does with an error. -/
def afterErr (cfg : Config) (failed : ℕ) (err : DialError) : Main :=
  if failed + 1 = cfg.dialerCount then .returned (.error err) else .racing (failed + 1)

/-- A slot in which `Start` has spawned the goroutines of a discovery. -/
def spawned (cfg : Config) (epoch : UInt64) : Slot :=
  { main := .racing 0
    epoch := epoch
    goroutine := fun type => if type = .ice ∨ cfg.enableWrrp then .preparing else .rest }

/-- What a dialer's goroutine does once `discover` has its transport. -/
def afterSend (t : Transport) : TransportType → Dialing
  | .ice => .loading t
  | .wrrp => .rest

/-- All goroutines of the slot have returned. -/
def Slot.AtRest (s : Slot) : Prop := s.main = .idle ∧ ∀ type, s.goroutine type = .rest

instance (s : Slot) : Decidable s.AtRest :=
  decidable_of_iff (s.main = .idle ∧ s.goroutine .ice = .rest ∧ s.goroutine .wrrp = .rest)
    (and_congr_right fun _ => ⟨fun h type => by cases type; exacts [h.1, h.2],
      fun h => ⟨h .ice, h .wrrp⟩⟩)

/-! ## Steps -/

/-- What the rest of the agent asks of a probe. -/
inductive Call
  | start
  /-- A handshake on an active relayed session, for example. -/
  | restart
  | close
  deriving DecidableEq, Repr

def Call.first : Call → Main
  | .start => .starting
  | .restart => .restarting
  | .close => .closing

/-- How a goroutine goes on. -/
inductive Move
  | go
  /-- A transport is received. -/
  | result
  /-- An error is received. -/
  | err
  /-- The grace timer fires. -/
  | timeout
  /-- `Prepare` fails. -/
  | fail
  /-- `Dial` returns. -/
  | dialed (result : Except DialError String)

/-- A step of the probe or of what is around it. -/
inductive Act (ι : Type)
  | call (i : ι) (c : Call)
  | main (i : ι) (move : Move)
  | dial (i : ι) (type : TransportType) (move : Move)
  /-- A delayed restart begins. -/
  | fire (i : ι) (due : ℕ)
  /-- A handshake is sent to the remote. -/
  | send (s : Sender)
  /-- It was answered, or a minute is over. -/
  | stop (s : Sender)
  /-- A handshake comes from the remote. -/
  | syn (fails : Bool)
  /-- The agent of a dialer gives up. -/
  | agentFails (d : ℕ)
  | lateClose (d : ℕ)
  /-- The remote's information comes, and its key is registered. -/
  | register
  | tick (n : ℕ)

/-- The goroutine of `Start`, or its caller, takes some steps in a row. -/
def Act.mains (i : ι) (n : ℕ) : List (Act ι) := List.replicate n (.main i .go)

/-- So does the goroutine of a dialer. -/
def Act.dials (i : ι) (type : TransportType) (n : ℕ) : List (Act ι) :=
  List.replicate n (.dial i type .go)

variable [DecidableEq ι]

def setSlot (i : ι) (s : Slot) (m : Lifecycle ι) : Lifecycle ι :=
  { m with slot := update m.slot i s }

/-- The caller, or the goroutine of `Start`, goes on. -/
def goto (i : ι) (next : Main) (m : Lifecycle ι) : Lifecycle ι :=
  m.setSlot i { m.slot i with main := next }

/-- The goroutine of a dialer goes on. -/
def goes (i : ι) (type : TransportType) (next : Dialing) (m : Lifecycle ι) : Lifecycle ι :=
  m.setSlot i
    { m.slot i with goroutine := update (m.slot i).goroutine type next }

/-- The goroutine of a dialer reports an error and returns. -/
def fails (i : ι) (type : TransportType) (err : DialError) (m : Lifecycle ι) : Lifecycle ι :=
  m.setSlot i
    { m.slot i with
      goroutine := update (m.slot i).goroutine type .rest
      errs := (m.slot i).errs ++ [err] }

section

variable (i : ι) (s : Slot) (next : Main) (m : Lifecycle ι)

@[simp] theorem slot_setSlot : (m.setSlot i s).slot = update m.slot i s := rfl

@[simp] theorem slot_goto :
    (m.goto i next).slot = update m.slot i { m.slot i with main := next } := rfl

end

/-- `restart`, `Start`, `discover` and what follows it, and `Close`. -/
def mainStep (cfg : Config) (i : ι) (move : Move) (m : Lifecycle ι) : Lifecycle ι :=
  let s := m.slot i
  match s.main, move with
  | .restarting, .go =>
      if m.shut then m.goto i .idle
      else { m with dialer := fun _ => some m.made, made := m.made + 1 }.goto i .replaced
  | .replaced, .go => { m with epoch := m.epoch + 1 }.goto i .raised
  | .raised, .go => { m with running := false }.goto i .starting
  | .starting, .go =>
      if m.running then m.goto i .idle else { m with running := true }.goto i .started
  | .started, .go => m.setSlot i { s with main := .probing, epoch := m.epoch }
  | .probing, .go => (m.transition cfg.fake .probing).setSlot i (spawned cfg s.epoch)
  | .racing _, .result =>
      match s.result with
      | [] => m
      | t :: rest => m.setSlot i { s with main := afterResult cfg t, result := rest }
  | .racing failed, .err =>
      match s.errs with
      | [] => m
      | err :: rest => m.setSlot i { s with main := afterErr cfg failed err, errs := rest }
  | .grace _, .result =>
      match s.result with
      | [] => m
      | t :: rest => m.setSlot i { s with main := .returned (.ok t), result := rest }
  | .grace t, .timeout => m.goto i (.overtime t)
  | .overtime t, .go => m.setSlot i { s with main := .returned (.ok t), wrrpWon := true }
  | .returned result, .go =>
      if m.epoch = s.epoch then m.goto i (.checked result) else m.goto i .idle
  | .checked result, .go => { m with running := false }.goto i (afterDiscover result)
  | .succeeding t, .go => { m with currentTransport := some t }.goto i (.assigned t)
  | .assigned t, .go => (m.transition cfg.fake (Node.readyState t.type)).goto i .idle
  | .failing err, .go =>
      { m with firstFailureAt := (m.onFailure err).2 }.goto i (.failed (m.onFailure err).1)
  | .failed failure, .go =>
      (m.transition cfg.fake failure.target).goto i (afterFailure failure)
  | .scheduling, .go => { m with timers := (m.now + 10 * second) :: m.timers }.goto i .idle
  | .closing, .go =>
      { m with shut := true, dialer := fun _ => none }.goto i (.closes (m.dialer .ice))
  | .closes none, .go => m.goto i .idle
  | .closes (some d), .go => (m.onIce IceDialer.close d).goto i .idle
  | _, _ => m

/-- The goroutine of a dialer in `discover`, with `handleUpgradeTransport`. -/
def dialStep (cfg : Config) (i : ι) (type : TransportType) (move : Move) (m : Lifecycle ι) :
    Lifecycle ι :=
  let s := m.slot i
  match s.goroutine type, move with
  | .preparing, .go =>
      match m.dialer type with
      | none => m
      | some d => m.goes i type (.prepares d)
  | .prepares d, .go => (m.prepare cfg type d s.epoch).goes i type .prepared
  | .prepares d, .fail =>
      if type = .ice ∧ cfg.initiator ∧ (m.ice d).agent = false then m.fails i type .other else m
  | .prepared, .go =>
      match m.dialer type with
      | none => m
      | some d => m.goes i type (.dialing d)
  | .dialing d, .dialed (.ok remoteAddr) =>
      if m.mayReturn type d (.ok remoteAddr) then
        (m.connect type d).goes i type (.sending ⟨type, remoteAddr⟩)
      else m
  | .dialing d, .dialed (.error err) =>
      if m.mayReturn type d (.error err) then m.fails i type err else m
  | .sending t, .go =>
      m.setSlot i
        { s with
          goroutine := update s.goroutine type (afterSend t type)
          result := s.result ++ [t] }
  | .loading t, .go => m.goes i type (if s.wrrpWon then .upgrading t else .rest)
  | .upgrading t, .go => { m with currentTransport := some t }.goes i type (.upgraded t)
  | .upgraded _, .go => (m.transition cfg.fake .iceReady).goes i type .rest
  | _, _ => m

section Inversion

variable {cfg : Config} {i : ι} {type : TransportType} {move : Move} {m : Lifecycle ι}
  {motive : Lifecycle ι → Prop}

/-- What the goroutine of `Start` and its callers can do. -/
theorem mainStep_elim (stay : motive m)
    (drop : (m.slot i).main = .restarting → m.shut = true → motive (m.goto i .idle))
    (replace : (m.slot i).main = .restarting → m.shut = false →
      motive ({ m with dialer := fun _ => some m.made, made := m.made + 1 }.goto i .replaced))
    (raise : (m.slot i).main = .replaced → motive ({ m with epoch := m.epoch + 1 }.goto i .raised))
    (release : (m.slot i).main = .raised → motive ({ m with running := false }.goto i .starting))
    (busy : (m.slot i).main = .starting → m.running = true → motive (m.goto i .idle))
    (take : (m.slot i).main = .starting → m.running = false →
      motive ({ m with running := true }.goto i .started))
    (read : (m.slot i).main = .started →
      motive (m.setSlot i { m.slot i with main := .probing, epoch := m.epoch }))
    (spawn : (m.slot i).main = .probing →
      motive ((m.transition cfg.fake .probing).setSlot i (spawned cfg (m.slot i).epoch)))
    (receive : ∀ n t rest, (m.slot i).main = .racing n → (m.slot i).result = t :: rest →
      motive (m.setSlot i { m.slot i with main := afterResult cfg t, result := rest }))
    (receiveErr : ∀ n err rest, (m.slot i).main = .racing n → (m.slot i).errs = err :: rest →
      motive (m.setSlot i { m.slot i with main := afterErr cfg n err, errs := rest }))
    (receiveLate : ∀ t t' rest, (m.slot i).main = .grace t → (m.slot i).result = t' :: rest →
      motive (m.setSlot i { m.slot i with main := .returned (.ok t'), result := rest }))
    (expire : ∀ t, (m.slot i).main = .grace t → move = .timeout → motive (m.goto i (.overtime t)))
    (win : ∀ t, (m.slot i).main = .overtime t →
      motive (m.setSlot i { m.slot i with main := .returned (.ok t), wrrpWon := true }))
    (check : ∀ result, (m.slot i).main = .returned result → m.epoch = (m.slot i).epoch →
      motive (m.goto i (.checked result)))
    (stale : ∀ result, (m.slot i).main = .returned result → m.epoch ≠ (m.slot i).epoch →
      motive (m.goto i .idle))
    (yield : ∀ result, (m.slot i).main = .checked result →
      motive ({ m with running := false }.goto i (afterDiscover result)))
    (assign : ∀ t, (m.slot i).main = .succeeding t →
      motive ({ m with currentTransport := some t }.goto i (.assigned t)))
    (succeed : ∀ t, (m.slot i).main = .assigned t →
      motive ((m.transition cfg.fake (Node.readyState t.type)).goto i .idle))
    (clock : ∀ err, (m.slot i).main = .failing err → move = .go →
      motive ({ m with firstFailureAt := (m.onFailure err).2 }.goto i
        (.failed (m.onFailure err).1)))
    (fail : ∀ failure, (m.slot i).main = .failed failure → move = .go →
      motive ((m.transition cfg.fake failure.target).goto i (afterFailure failure)))
    (schedule : (m.slot i).main = .scheduling →
      motive ({ m with timers := (m.now + 10 * second) :: m.timers }.goto i .idle))
    (shut : (m.slot i).main = .closing →
      motive ({ m with shut := true, dialer := fun _ => none }.goto i (.closes (m.dialer .ice))))
    (closeNone : (m.slot i).main = .closes none → motive (m.goto i .idle))
    (close : ∀ d, (m.slot i).main = .closes (some d) →
      motive ((m.onIce IceDialer.close d).goto i .idle)) :
    motive (m.mainStep cfg i move) := by
  unfold mainStep
  dsimp only
  split
  · next h =>
    split_ifs with hshut
    · exact drop h hshut
    · exact replace h (Bool.not_eq_true _ ▸ hshut)
  · exact raise ‹_›
  · exact release ‹_›
  · next h =>
    split_ifs with hrunning
    · exact busy h hrunning
    · exact take h (Bool.not_eq_true _ ▸ hrunning)
  · exact read ‹_›
  · exact spawn ‹_›
  · next h =>
    cases hresult : (m.slot i).result with
    | nil => exact stay
    | cons t rest => exact receive _ t rest h hresult
  · next h =>
    cases herrs : (m.slot i).errs with
    | nil => exact stay
    | cons err rest => exact receiveErr _ err rest h herrs
  · next h =>
    cases hresult : (m.slot i).result with
    | nil => exact stay
    | cons t rest => exact receiveLate _ t rest h hresult
  · exact expire _ ‹_› rfl
  · exact win _ ‹_›
  · next h =>
    split_ifs with hepoch
    · exact check _ h hepoch
    · exact stale _ h hepoch
  · exact yield _ ‹_›
  · exact assign _ ‹_›
  · exact succeed _ ‹_›
  · exact clock _ ‹_› rfl
  · exact fail _ ‹_› rfl
  · exact schedule ‹_›
  · exact shut ‹_›
  · exact closeNone ‹_›
  · exact close _ ‹_›
  · exact stay

/-- What the goroutine of a dialer can do. -/
theorem dialStep_elim (stay : motive m)
    (look : ∀ d, (m.slot i).goroutine type = .preparing → m.dialer type = some d →
      motive (m.goes i type (.prepares d)))
    (prepare : ∀ d, (m.slot i).goroutine type = .prepares d →
      motive ((m.prepare cfg type d (m.slot i).epoch).goes i type .prepared))
    (lookAgain : ∀ d, (m.slot i).goroutine type = .prepared → m.dialer type = some d →
      motive (m.goes i type (.dialing d)))
    (fail : ∀ d err, (m.slot i).goroutine type = .prepares d ∧ move = .fail ∨
        (m.slot i).goroutine type = .dialing d ∧ move = .dialed (.error err) ∧
          m.mayReturn type d (.error err) = true →
      motive (m.fails i type err))
    (connect : ∀ d remoteAddr, (m.slot i).goroutine type = .dialing d →
      m.mayReturn type d (.ok remoteAddr) = true →
      motive ((m.connect type d).goes i type (.sending ⟨type, remoteAddr⟩)))
    (send : ∀ t, (m.slot i).goroutine type = .sending t →
      motive (m.setSlot i
        { m.slot i with
          goroutine := update (m.slot i).goroutine type (afterSend t type)
          result := (m.slot i).result ++ [t] }))
    (load : ∀ t, (m.slot i).goroutine type = .loading t → move = .go →
      motive (m.goes i type (if (m.slot i).wrrpWon then .upgrading t else .rest)))
    (assign : ∀ t, (m.slot i).goroutine type = .upgrading t → move = .go →
      motive ({ m with currentTransport := some t }.goes i type (.upgraded t)))
    (succeed : ∀ t, (m.slot i).goroutine type = .upgraded t →
      motive ((m.transition cfg.fake .iceReady).goes i type .rest)) :
    motive (m.dialStep cfg i type move) := by
  unfold dialStep
  dsimp only
  split
  · next h =>
    cases hdialer : m.dialer type with
    | none => exact stay
    | some d => exact look d h hdialer
  · exact prepare _ ‹_›
  · next h =>
    split_ifs
    · exact fail _ _ (.inl ⟨h, rfl⟩)
    · exact stay
  · next h =>
    cases hdialer : m.dialer type with
    | none => exact stay
    | some d => exact lookAgain d h hdialer
  · next h =>
    split_ifs with hmay
    · exact connect _ _ h hmay
    · exact stay
  · next h =>
    split_ifs with hmay
    · exact fail _ _ (.inr ⟨h, rfl, hmay⟩)
    · exact stay
  · exact send _ ‹_›
  · exact load _ ‹_› rfl
  · exact assign _ ‹_› rfl
  · exact succeed _ ‹_›
  · exact stay

end Inversion

/-- One step. Calls and timers need a slot that is free. -/
def step (cfg : Config) (m : Lifecycle ι) : Act ι → Lifecycle ι
  | .call i c => if (m.slot i).AtRest then m.goto i c.first else m
  | .main i move => m.mainStep cfg i move
  | .dial i type move => m.dialStep cfg i type move
  | .fire i due =>
      if (m.slot i).AtRest ∧ due ∈ m.timers ∧ due ≤ m.now then
        { m with timers := m.timers.erase due }.goto i .restarting
      else m
  | .send _ => m
  | .stop s => { m with senders := m.senders.erase s }
  | .syn fails =>
      match m.dialer .ice with
      | none => m
      | some d => m.onIce (IceDialer.handleSyn fails) d
  | .agentFails d => if (m.ice d).agent then m.onIce IceDialer.close d else m
  | .lateClose d =>
      if d ∈ m.lateCloses then
        { m.onIce IceDialer.close d with lateCloses := m.lateCloses.erase d }
      else m
  | .register => { m with registered := true }
  | .tick n => { m with now := m.now + n }

def run (cfg : Config) (m : Lifecycle ι) (acts : List (Act ι)) : Lifecycle ι :=
  acts.foldl (step cfg) m

end Lifecycle

end Wireflow.Agent
