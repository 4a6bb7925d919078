/-
# Senders that share a writer

`Relay` looks a session up under the lock of the session manager and writes the frame to its stream
after the lock is released. So the goroutines of all senders with a frame for one target call
`ReadWriterConn.Write` of that target whenever they like: `Write` of the buffered writer and then
`Flush`. Each of them relays one frame after the other.
-/

import Wireflow.Go.Bufio

namespace Wireflow.Relay

open Go.Bufio

/-- Where a sender is in `ReadWriterConn.Write`. -/
inductive Pc
  /-- It is not relaying a frame to this target. -/
  | idle
  /-- It is in the loop of `Write`, with the rest of the frame. -/
  | writing (frame rest : List UInt8)
  /-- It is in `Flush`: within `Write` if there is a rest, and after it if there is none. -/
  | flushing (frame : List UInt8) (rest : Option (List UInt8))
  /-- The connection has returned. -/
  | flushed (frame : List UInt8) (rest : Option (List UInt8)) (n : ℕ) (failed : Bool)
  /-- It resets the buffer. -/
  | resetting (frame : List UInt8) (rest : Option (List UInt8))
  deriving DecidableEq, Repr

/-- A registered TCP connection, and the senders that relay frames to it. -/
structure Target (ι : Type) where
  writer : Writer := {}
  pc : ι → Pc := fun _ => .idle
  /-- The frames for which `Relay` has returned no error. -/
  accepted : List (ι × List UInt8) := []
  /-- The frames for which `Relay` has returned an error. -/
  rejected : List (ι × List UInt8) := []

inductive Action (ι : Type)
  /-- A sender calls `Relay` with a frame. -/
  | relay (sender : ι) (frame : List UInt8)
  /-- A sender takes a step; if it calls the connection, that may fail. -/
  | act (sender : ι) (fails : Option ℕ)
  deriving DecidableEq, Repr

def Action.sender {ι : Type} : Action ι → ι
  | .relay i _ | .act i _ => i

namespace Target

variable {ι : Type} [DecidableEq ι]

variable (s : Target ι) (i : ι)

def goto (w : Writer) (pc : Pc) : Target ι :=
  { s with writer := w, pc := Function.update s.pc i pc }

def accept (w : Writer) (frame : List UInt8) : Target ι :=
  { s.goto i w .idle with accepted := s.accepted ++ [(i, frame)] }

def reject (w : Writer) (frame : List UInt8) : Target ι :=
  { s.goto i w .idle with rejected := s.rejected ++ [(i, frame)] }

/-- `Flush` returns. Within `Write` its error is not looked at. -/
def flushReturns (w : Writer) (frame : List UInt8)
    (rest : Option (List UInt8)) (ok : Bool) : Target ι :=
  match rest with
  | some p => s.goto i w (.writing frame p)
  | none => if ok then s.accept i w frame else s.reject i w frame

def act (fails : Option ℕ) : Target ι :=
  match s.pc i with
  | .idle => s
  | .writing frame rest =>
      match s.writer.round fails rest with
      | (w, .again rest) => s.goto i w (.writing frame rest)
      | (w, .flush rest) => s.goto i w (.flushing frame (some rest))
      | (w, .stored) => s.goto i w (.flushing frame none)
      | (w, .failed) => s.reject i w frame
  | .flushing frame rest =>
      match s.writer.flush fails with
      | (w, .empty) => s.flushReturns i w frame rest true
      | (w, .written n failed) => s.goto i w (.flushed frame rest n failed)
      | (w, .failed) => s.flushReturns i w frame rest false
  | .flushed frame rest n failed =>
      match s.writer.compare n failed with
      | (w, true) => s.goto i w (.resetting frame rest)
      | (w, false) => s.flushReturns i w frame rest false
  | .resetting frame rest => s.flushReturns i s.writer.reset frame rest true

def step : Action ι → Target ι
  | .relay i frame =>
      match s.pc i with
      | .idle => s.goto i s.writer (.writing frame frame)
      | _ => s
  | .act i fails => s.act i fails

def run (actions : List (Action ι)) : Target ι := actions.foldl step {}

end Target

end Wireflow.Relay
