/-
# Buffered writing

`bufio.Writer` collects bytes and writes them to a connection. It has no lock, so `Write` and
`Flush` are cut where they touch what their callers share: a round of the loop in `Write`, the call
of the connection in `Flush`, the comparison of what the connection took with what is in the buffer
by then, and the reset of the buffer.

A caller that is alone never loses a byte: what a step sends is what it takes from the front of the
bytes still to be sent (`round_cases`, `flush_cases`, `compare_cases`).
-/

import Mathlib.Data.List.Infix

namespace Go

namespace Bufio

inductive WriteError
  /-- `io.ErrShortWrite`. -/
  | shortWrite
  /-- The error of the connection. -/
  | connection
  deriving DecidableEq, Repr

/-- A writer, and what its connection has taken. -/
structure Writer where
  size : ℕ := 4096
  /-- The bytes in the buffer, `b.buf[0:b.n]`. -/
  buf : List UInt8 := []
  /-- An error stays. -/
  err : Option WriteError := none
  sent : List UInt8 := []
  deriving DecidableEq, Repr

/-- What a connection takes: everything, or a number of bytes before it fails. -/
def taken (fails : Option ℕ) (p : List UInt8) : List UInt8 :=
  match fails with
  | none => p
  | some n => p.take n

theorem taken_append_drop (fails : Option ℕ) (p : List UInt8) :
    taken fails p ++ p.drop (taken fails p).length = p := by
  apply (List.prefix_iff_eq_append.mp ?_)
  cases fails with
  | none => exact List.prefix_rfl
  | some n => exact List.take_prefix n p

/-! ## Write -/

/-- How a round of the loop in `Write` ends. -/
inductive Round
  /-- The loop goes on with the rest. -/
  | again (rest : List UInt8)
  /-- The buffer is full: `Flush`, and then the loop goes on with the rest. -/
  | flush (rest : List UInt8)
  /-- `Write` has put the last bytes into the buffer. -/
  | stored
  /-- `Write` returns the error of the writer. -/
  | failed
  deriving DecidableEq, Repr

namespace Writer

/-- `b.Available()`. -/
def available (w : Writer) : ℕ := w.size - w.buf.length

/-- A round of the loop in `Write`, or what comes after the last one. -/
def round (w : Writer) (fails : Option ℕ) (p : List UInt8) : Writer × Round :=
  if w.err ≠ none then (w, .failed)
  else if w.available < p.length then
    if w.buf = [] then
      -- a large write goes to the connection directly
      ({ w with sent := w.sent ++ taken fails p, err := fails.map fun _ => .connection },
        .again (p.drop (taken fails p).length))
    else
      ({ w with buf := w.buf ++ p.take w.available }, .flush (p.drop w.available))
  else ({ w with buf := w.buf ++ p }, .stored)

variable {w w' : Writer} {fails : Option ℕ} {p : List UInt8}

theorem round_cases {next : Round} (h : w.round fails p = (w', next)) :
    (∃ rest u, next = .again rest ∧ w.err = none ∧ w'.sent = w.sent ++ u ∧
      w.buf ++ p = u ++ (w'.buf ++ rest)) ∨
    (∃ rest buf, next = .flush rest ∧ w.err = none ∧ w' = { w with buf := buf } ∧
      w.buf ++ p = buf ++ rest) ∨
    (next = .stored ∧ w.err = none ∧ w' = { w with buf := w.buf ++ p }) ∨
    (next = .failed ∧ w' = w ∧ w.err ≠ none) := by
  unfold round at h
  split_ifs at h with herr hfull hempty <;> cases h
  · exact .inr (.inr (.inr ⟨rfl, rfl, herr⟩))
  · refine .inl ⟨_, taken fails p, rfl, not_not.mp herr, rfl, ?_⟩
    rw [hempty, List.nil_append, List.nil_append, taken_append_drop]
  · refine .inr (.inl ⟨_, _, rfl, not_not.mp herr, rfl, ?_⟩)
    rw [List.append_assoc, List.take_append_drop]
  · exact .inr (.inr (.inl ⟨rfl, not_not.mp herr, rfl⟩))

end Writer

/-! ## Flush -/

/-- How the first part of `Flush` ends. -/
inductive Flushing
  /-- There is nothing to write. -/
  | empty
  /-- The connection has taken some bytes, and may have failed. -/
  | written (n : ℕ) (failed : Bool)
  /-- `Flush` returns the error of the writer. -/
  | failed
  deriving DecidableEq, Repr

namespace Writer

/-- `Flush`, until the connection returns. -/
def flush (w : Writer) (fails : Option ℕ) : Writer × Flushing :=
  if w.err ≠ none then (w, .failed)
  else if w.buf = [] then (w, .empty)
  else
    ({ w with sent := w.sent ++ taken fails w.buf },
      .written (taken fails w.buf).length fails.isSome)

/-- `Flush`, with what the connection has returned: whether it goes on. The buffer may hold more by
then. -/
def compare (w : Writer) (n : ℕ) (failed : Bool) : Writer × Bool :=
  if failed then ({ w with buf := w.buf.drop n, err := some .connection }, false)
  else if n < w.buf.length then ({ w with buf := w.buf.drop n, err := some .shortWrite }, false)
  else (w, true)

/-- The end of `Flush`. -/
def reset (w : Writer) : Writer := { w with buf := [] }

variable {w w' : Writer} {fails : Option ℕ} {n : ℕ} {failed : Bool}

theorem flush_cases {next : Flushing} (h : w.flush fails = (w', next)) :
    (next = .empty ∧ w' = w ∧ w.buf = []) ∨
    (∃ n failed u, next = .written n failed ∧ w'.err = none ∧
      (failed = false → n = w'.buf.length) ∧ w'.sent = w.sent ++ u ∧
      w.buf = u ++ w'.buf.drop n) ∨
    w.err ≠ none := by
  unfold flush at h
  split_ifs at h with herr hempty <;> cases h
  · exact .inr (.inr herr)
  · exact .inl ⟨rfl, rfl, hempty⟩
  · refine .inr (.inl ⟨_, _, taken fails w.buf, rfl, not_not.mp herr, ?_, rfl,
      (taken_append_drop fails w.buf).symm⟩)
    cases fails with
    | none => exact fun _ => rfl
    | some n => exact nofun

theorem compare_cases {ok : Bool} (h : w.compare n failed = (w', ok)) :
    (ok = true ∧ w' = w ∧ failed = false) ∨
    (ok = false ∧ w'.err ≠ none ∧ w'.sent = w.sent ∧ w'.buf = w.buf.drop n) := by
  unfold compare at h
  split_ifs at h with hfailed hshort <;> cases h
  · exact .inr ⟨rfl, Option.some_ne_none _, rfl, rfl⟩
  · exact .inr ⟨rfl, Option.some_ne_none _, rfl, rfl⟩
  · exact .inl ⟨rfl, rfl, Bool.eq_false_iff.mpr hfailed⟩

end Writer

end Bufio

end Go
