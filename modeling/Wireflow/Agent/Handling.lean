/-
# Pointers that may be nil

`Lifecycle` takes the handling of a packet as one step. Here the goroutines that share the dialers
of a probe are taken apart at every access to a pointer that another goroutine may change: the
dialers and their constructors, which `Probe.Close` takes away, and the agent of an ICE dialer,
which its `Close` takes away. Dereferencing a pointer that is nil is a call of its own, `crash`.

Every goroutine is a worker that may begin at any time, and there may be any number of each kind.
What decides when `Start` spawns the goroutines of a discovery is left out, as is what packets say
about the remote peer.
-/

import Wireflow.Agent.Node
import Wireflow.Semantics.RelyGuarantee

namespace Wireflow.Agent.Handling

open Semantics
open Semantics.Program (perform)

/-- What is nil. -/
inductive Nil
  | dialer
  | constructor
  | agent
  | payload
  /-- The client of the relay, which a node without a relay does not have. -/
  | relay
  deriving DecidableEq, Repr

/-- `Offer`, as far as it can be read. -/
structure Offer where
  /-- `UnmarshalCandidate` reads the candidate. -/
  candidate : Bool
  /-- `Current` is the JSON of a peer. -/
  current : Bool
  deriving DecidableEq, Repr

/-- `SignalPacket`, with the dialer it names, if there is such a dialer, and `GetOffer`. -/
structure Packet where
  dialer : Option TransportType
  type : PacketType
  offer : Option Offer := none
  deriving DecidableEq, Repr

/-- What a probe is made with. -/
structure Setup where
  initiator : Bool
  relay : Bool

/-! ## Shared state -/

/-- `iceDialer`, with its channel and its agent at work. -/
structure Ice extends IceDialer where
  offerReady : Bool := false
  /-- `GatherCandidates` was called, so that `OnCandidate` may be. -/
  gathering : Bool := false

/-- `wrrpDialer`, with its channel. -/
structure Wrrp extends WrrpDialer where
  ready : Bool := false

/-- What the goroutines share. Dialers are numbered. -/
structure Shared where
  /-- `Close` has taken the constructors. -/
  shut : Bool := false
  /-- `iceDialer` and `wrrpDialer`. -/
  dialer : TransportType → Option ℕ := fun _ => some 0
  made : ℕ := 1
  ice : ℕ → Ice := fun _ => {}
  wrrp : ℕ → Wrrp := fun _ => {}
  crashed : Option Nil := none

namespace Shared

def onIce (f : Ice → Ice) (d : ℕ) (s : Shared) : Shared :=
  { s with ice := Function.update s.ice d (f (s.ice d)) }

def onWrrp (f : Wrrp → Wrrp) (d : ℕ) (s : Shared) : Shared :=
  { s with wrrp := Function.update s.wrrp d (f (s.wrrp d)) }

end Shared

/-! ## Calls -/

/-- What the `select` of `iceDialer.Dial` chooses. -/
inductive Awaited
  | timeout
  | closed
  | ready
  deriving DecidableEq, Repr

/-- An access to what is shared. -/
inductive Op
  | loadDialer (type : TransportType)
  /-- `newIceDialer == nil`. -/
  | loadConstructor
  /-- The constructors are called under the lock. -/
  | replaceDialers
  /-- `Probe.Close` takes the dialers and the constructors. -/
  | takeDialers
  | loadClosed (d : ℕ)
  /-- The agent is compared with nil. -/
  | loadAgent (d : ℕ)
  /-- The agent is dereferenced. -/
  | useAgent (d : ℕ)
  | storeAgent (d : ℕ)
  | gatherCandidates (d : ℕ)
  /-- `closed.Store(true)`, under `closeOnce`. -/
  | storeClosed (d : ℕ)
  /-- `Close` of an ICE dialer takes the agent. -/
  | takeAgent (d : ℕ)
  /-- `close(offerReady)`, under `offerOnce`. -/
  | closeOfferReady (d : ℕ)
  | awaitOffer (d : ℕ)
  /-- Read and reset `active`. -/
  | takeActive (d : ℕ)
  /-- Set `active` and close `readyChan`. -/
  | activate (d : ℕ)
  | awaitReady (d : ℕ)
  /-- Whether the agent has a candidate for `OnCandidate`. -/
  | nextCandidate (d : ℕ)
  /-- Whether something fails that is not modelled: sending, making an agent, or the agent. -/
  | outcome
  | crash (what : Nil)

def Op.Answer : Op → Type
  | .loadDialer _ | .takeDialers => Option ℕ
  | .awaitOffer _ => Awaited
  | .loadConstructor | .replaceDialers | .loadClosed _ | .loadAgent _ | .useAgent _
  | .storeClosed _ | .takeActive _ | .awaitReady _ | .nextCandidate _ | .outcome => Bool
  | .storeAgent _ | .gatherCandidates _ | .takeAgent _ | .closeOfferReady _ | .activate _
  | .crash _ => Unit

/-- What a call leaves open. -/
structure Choice where
  fails : Bool := false
  awaited : Awaited := .timeout

/-- The `select` of `iceDialer.Dial` chooses a channel that is closed, or waits for the timeout. -/
def Ice.select (x : Ice) : Awaited → Awaited
  | .closed => if x.closed then .closed else .timeout
  | .ready => if x.offerReady then .ready else .timeout
  | .timeout => .timeout

/-- How a call is answered. -/
def exec : (op : Op) → Choice → Shared → op.Answer × Shared
  | .loadDialer type, _, s => (s.dialer type, s)
  | .loadConstructor, _, s => (!s.shut, s)
  | .replaceDialers, _, s =>
      if s.shut then (false, s)
      else (true, { s with dialer := fun _ => some s.made, made := s.made + 1 })
  | .takeDialers, _, s => (s.dialer .ice, { s with shut := true, dialer := fun _ => none })
  | .loadClosed d, _, s => ((s.ice d).closed, s)
  | .loadAgent d, _, s => ((s.ice d).agent, s)
  | .useAgent d, _, s => ((s.ice d).agent, s)
  | .storeAgent d, _, s => ((), s.onIce (fun x => { x with agent := true }) d)
  | .gatherCandidates d, _, s => ((), s.onIce (fun x => { x with gathering := true }) d)
  | .storeClosed d, _, s => (!(s.ice d).closed, s.onIce (fun x => { x with closed := true }) d)
  | .takeAgent d, _, s => ((), s.onIce (fun x => { x with agent := false }) d)
  | .closeOfferReady d, _, s => ((), s.onIce (fun x => { x with offerReady := true }) d)
  | .awaitOffer d, choice, s => ((s.ice d).select choice.awaited, s)
  | .takeActive d, _, s =>
      ((s.wrrp d).active, s.onWrrp (fun x => { x with active := false }) d)
  | .activate d, _, s => ((), s.onWrrp (fun x => { x with active := true, ready := true }) d)
  | .awaitReady d, choice, s => ((s.wrrp d).ready && !choice.fails, s)
  | .nextCandidate d, choice, s => ((s.ice d).gathering && !choice.fails, s)
  | .outcome, choice, s => (choice.fails, s)
  | .crash what, _, s => ((), { s with crashed := some what })

/-! ## Goroutines -/

abbrev Prog := Program Op Op.Answer

section

variable (type : TransportType) (d : ℕ) (what : Nil)

def loadDialer : Prog (Option ℕ) := perform (Op.loadDialer type)

def loadConstructor : Prog Bool := perform Op.loadConstructor

def replaceDialers : Prog Bool := perform Op.replaceDialers

def takeDialers : Prog (Option ℕ) := perform Op.takeDialers

def loadClosed : Prog Bool := perform (Op.loadClosed d)

def loadAgent : Prog Bool := perform (Op.loadAgent d)

def useAgent : Prog Bool := perform (Op.useAgent d)

def storeAgent : Prog Unit := perform (Op.storeAgent d)

def gatherCandidates : Prog Unit := perform (Op.gatherCandidates d)

def storeClosed : Prog Bool := perform (Op.storeClosed d)

def takeAgent : Prog Unit := perform (Op.takeAgent d)

def closeOfferReady : Prog Unit := perform (Op.closeOfferReady d)

def awaitOffer : Prog Awaited := perform (Op.awaitOffer d)

def takeActive : Prog Bool := perform (Op.takeActive d)

def activate : Prog Unit := perform (Op.activate d)

def awaitReady : Prog Bool := perform (Op.awaitReady d)

def nextCandidate : Prog Bool := perform (Op.nextCandidate d)

def outcome : Prog Bool := perform Op.outcome

def crash : Prog Unit := perform (Op.crash what)

end

/-- `iceDialer.Close`. -/
def iceClose (d : ℕ) : Prog Unit := do
  let first ← storeClosed d
  if first then takeAgent d else pure ()

/-- `iceDialer.Handle`. -/
def iceHandle (pk : Packet) (d : ℕ) : Prog Unit :=
  match pk.type with
  | .handshakeAck => do
      let closed ← loadClosed d
      if closed then pure ()
      else
        let agent ← loadAgent d
        if agent then gatherCandidates d else pure ()
  | .handshakeSyn => do
      let closed ← loadClosed d
      if closed then pure ()
      else
        let existingAgent ← loadAgent d
        if existingAgent then iceClose d
        else
          -- the ACK is sent and an agent is made, and either may fail
          let fails ← outcome
          if fails then pure ()
          else
            storeAgent d
            gatherCandidates d
  | .offer | .answer =>
      match pk.offer with
      | none => crash .payload
      | some offer =>
          if offer.candidate then do
            let agent ← useAgent d
            if agent then
              let fails ← outcome
              if fails then pure () else closeOfferReady d
            else crash .agent
          else pure ()
  | .unknown => pure ()

/-- `restart`, up to the call of `Start`. -/
def restart : Prog Unit := do
  let present ← loadConstructor
  if present then
    let called ← replaceDialers
    if called then pure () else crash .constructor
  else pure ()

variable (setup : Setup)

/-- `sendOfferFromWrrp`. -/
def sendOffer : Prog Unit :=
  if setup.relay then pure () else crash .relay

/-- `wrrpDialer.Handle`. -/
def wrrpHandle (pk : Packet) (d : ℕ) : Prog Unit :=
  match pk.type with
  | .handshakeSyn => do
      let isActive ← takeActive d
      if isActive then restart else pure ()
  | .handshakeAck => if setup.initiator then sendOffer setup else pure ()
  | .offer =>
      match pk.offer with
      | none => crash .payload
      | some offer =>
          if offer.current then do
            activate d
            sendOffer setup
          else pure ()
  | .answer =>
      match pk.offer with
      | none => crash .payload
      | some offer => if offer.current then activate d else pure ()
  | .unknown => pure ()

/-- A dialer is read from the probe and one of its methods is called. -/
def onDialer (type : TransportType) (method : ℕ → Prog Unit) : Prog Unit := do
  let dialer ← loadDialer type
  match dialer with
  | none => crash .dialer
  | some d => method d

/-- `Probe.Handle`. -/
def handle (pk : Packet) : Prog Unit :=
  match pk.dialer with
  | some .ice => onDialer .ice (iceHandle pk)
  | some .wrrp => onDialer .wrrp (wrrpHandle setup pk)
  | none => pure ()

/-- `iceDialer.Prepare`, followed by the rest of its goroutine. -/
def icePrepare (rest : Prog Unit) (d : ℕ) : Prog Unit :=
  if setup.initiator then do
    let agent ← loadAgent d
    if agent then rest
    else
      let fails ← outcome
      if fails then pure ()
      else
        storeAgent d
        rest
  else rest

/-- `iceDialer.Dial`, with the `Close` that follows half a second after a connection. -/
def iceDial (d : ℕ) : Prog Unit := do
  let awaited ← awaitOffer d
  match awaited with
  | .timeout | .closed => pure ()
  | .ready =>
      -- `StartDial` or `StartAccept`
      let agent ← useAgent d
      if agent then
        let fails ← outcome
        if fails then pure ()
        else
          -- `AwaitConnect`
          let agent ← useAgent d
          if agent then
            let fails ← outcome
            if fails then pure () else iceClose d
          else crash .agent
      else crash .agent

/-- `wrrpDialer.Dial`. -/
def wrrpDial (d : ℕ) : Prog Unit := do
  let ready ← awaitReady d
  if ready then
    -- `RemoteAddr`
    if setup.relay then pure () else crash .relay
  else pure ()

/-- A goroutine of `discover`. The dialer is read from the probe for each method. -/
def discover : TransportType → Prog Unit
  | .ice => onDialer .ice (icePrepare setup (onDialer .ice iceDial))
  | .wrrp => onDialer .wrrp fun _ => onDialer .wrrp (wrrpDial setup)

/-- `Probe.Close`. -/
def closeProbe : Prog Unit := do
  let dialer ← takeDialers
  match dialer with
  | none => pure ()
  | some d => iceClose d

/-- `OnCandidate`, which sends an offer. -/
def onCandidate (d : ℕ) : Prog Unit := do
  let present ← nextCandidate d
  if present then
    let closed ← loadClosed d
    if closed then pure ()
    else
      let agent ← useAgent d
      if agent then pure () else crash .agent
  else pure ()

/-- What a goroutine does. -/
inductive Task
  | handle (pk : Packet)
  | restart
  | discover (type : TransportType)
  | close
  | candidate (d : ℕ)
  /-- The state of an agent is `Failed`. -/
  | failed (d : ℕ)
  deriving DecidableEq, Repr

def Task.program : Task → Prog Unit
  | .handle pk => Handling.handle setup pk
  | .restart => Handling.restart
  | .discover type => Handling.discover setup type
  | .close => closeProbe
  | .candidate d => onCandidate d
  | .failed d => iceClose d

/-- Any number of goroutines for each task. -/
def workers (ι : Type) (setup : Setup) : Workers (ι × Task) Op Op.Answer Shared Choice Empty where
  program i := i.2.program setup
  exec := exec
  disturb e := nomatch e

end Wireflow.Agent.Handling
