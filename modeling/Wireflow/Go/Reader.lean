/-
# Reading from a connection

A connection brings bytes in portions of any size; between them a read deadline may expire, and
after the last portion the connection has ended. `io.ReadFull` collects bytes over as many portions
as it takes, and what it has collected is lost when the deadline expires.

How the bytes were split does not matter: `items` forgets it, and reading from the items is the
same (`readFull_items`).
-/

import Mathlib.Data.List.ReduceOption

namespace Go

namespace Reader

inductive ReadError
  | eof
  | timeout
  deriving DecidableEq, Repr

/-- What a connection brings. -/
inductive Arrival
  | data (bytes : List UInt8)
  /-- The read deadline expires. -/
  | expiry
  deriving DecidableEq, Repr

/-- `io.ReadFull`, with a buffered reader: what is left of a portion stays for the next read. -/
def readFull : ℕ → List Arrival → Except ReadError (List UInt8) × List Arrival
  | 0, s => (.ok [], s)
  | _ + 1, [] => (.error .eof, [])
  | _ + 1, .expiry :: s => (.error .timeout, s)
  | n + 1, .data bytes :: s =>
      if n + 1 ≤ bytes.length then (.ok (bytes.take (n + 1)), .data (bytes.drop (n + 1)) :: s)
      else
        let later := readFull (n + 1 - bytes.length) s
        (later.1.map (bytes ++ ·), later.2)

/-! ## Single bytes -/

/-- A byte, or an expiry of the deadline. -/
abbrev Item := Option UInt8

def items : List Arrival → List Item
  | [] => []
  | .data bytes :: s => bytes.map some ++ items s
  | .expiry :: s => none :: items s

/-- The bytes that arrive. -/
def bytesOf (s : List Arrival) : List UInt8 := (items s).reduceOption

def readItems : ℕ → List Item → Except ReadError (List UInt8) × List Item
  | 0, s => (.ok [], s)
  | _ + 1, [] => (.error .eof, [])
  | _ + 1, none :: s => (.error .timeout, s)
  | n + 1, some b :: s => ((readItems n s).1.map (b :: ·), (readItems n s).2)

@[simp] theorem readItems_zero (s : List Item) : readItems 0 s = (.ok [], s) := rfl

/-- Bytes that are there are read one by one. -/
theorem readItems_append (l : List UInt8) (n : ℕ) (s : List Item) :
    readItems (l.length + n) (l.map some ++ s) =
      ((readItems n s).1.map (l ++ ·), (readItems n s).2) := by
  induction l with
  | nil =>
    cases h : (readItems n s).1 <;> simp [← h, Except.map]
  | cons b l ih =>
    rw [List.length_cons, Nat.add_right_comm, List.map_cons, List.cons_append, readItems, ih]
    cases (readItems n s).1 <;> rfl

variable {l : List UInt8} {n : ℕ}

theorem readItems_whole (h : l.length = n) (s : List Item) :
    readItems n (l.map some ++ s) = (.ok l, s) := by
  have hread := readItems_append l 0 s
  rw [Nat.add_zero, h] at hread
  rw [hread, readItems_zero]
  simp [Except.map]

/-- The deadline expires before the last byte: what was read is lost. -/
theorem readItems_timeout (h : l.length < n) (s : List Item) :
    readItems n (l.map some ++ none :: s) = (.error .timeout, s) := by
  obtain ⟨k, rfl⟩ := Nat.exists_eq_add_of_lt h
  rw [Nat.add_assoc, readItems_append]
  rfl

theorem readItems_eof (h : l.length < n) :
    readItems n (l.map some) = (.error .eof, []) := by
  obtain ⟨k, rfl⟩ := Nat.exists_eq_add_of_lt h
  have hread := readItems_append l (k + 1) []
  rw [List.append_nil] at hread
  rw [Nat.add_assoc, hread]
  rfl

/-- A number of bytes is there without an expiry, or an expiry comes first, or the end. -/
theorem items_cases (n : ℕ) (s : List Item) :
    (∃ (l : List UInt8) (s' : List Item), l.length = n ∧ s = l.map some ++ s') ∨
      (∃ (l : List UInt8) (s' : List Item), l.length < n ∧ s = l.map some ++ none :: s') ∨
      (∃ l : List UInt8, l.length < n ∧ s = l.map some) := by
  induction n generalizing s with
  | zero => exact .inl ⟨[], s, rfl, rfl⟩
  | succ n ih =>
    match s with
    | [] => exact .inr (.inr ⟨[], Nat.succ_pos n, rfl⟩)
    | none :: s => exact .inr (.inl ⟨[], s, Nat.succ_pos n, rfl⟩)
    | some b :: s =>
      rcases ih s with ⟨l, s', hl, rfl⟩ | ⟨l, s', hl, rfl⟩ | ⟨l, hl, rfl⟩
      · exact .inl ⟨b :: l, s', by simp [hl], rfl⟩
      · exact .inr (.inl ⟨b :: l, s', by simpa using hl, rfl⟩)
      · exact .inr (.inr ⟨b :: l, by simpa using hl, rfl⟩)

/-! ## Portions -/

/-- **Portions do not matter.** Reading from a connection is reading from its bytes and expiries,
however the bytes have come. -/
theorem readFull_items (n : ℕ) (s : List Arrival) :
    readItems n (items s) = ((readFull n s).1, items (readFull n s).2) := by
  induction s generalizing n with
  | nil => cases n <;> rfl
  | cons a s ih =>
    cases n with
    | zero => rfl
    | succ n =>
      cases a with
      | expiry => rfl
      | data bytes =>
        rw [readFull, items]
        split_ifs with hlong
        · have hsplit : bytes.map some ++ items s =
              (bytes.take (n + 1)).map some ++ ((bytes.drop (n + 1)).map some ++ items s) := by
            rw [← List.append_assoc, ← List.map_append, List.take_append_drop]
          rw [hsplit, readItems_whole (List.length_take_of_le hlong)]
          rfl
        · have hn : n + 1 = bytes.length + (n + 1 - bytes.length) := by omega
          rw [hn, readItems_append, ih, ← hn]

/-- What is said of reading from the items is so of the connection. -/
theorem readFull_of_items {s : List Arrival} {result : Except ReadError (List UInt8)}
    {t : List Item} (h : readItems n (items s) = (result, t)) :
    ∃ s', readFull n s = (result, s') ∧ items s' = t := by
  rw [readFull_items, Prod.mk.injEq] at h
  exact ⟨_, Prod.ext h.1 rfl, h.2⟩

@[simp]
theorem reduceOption_map_some (l : List UInt8) : (l.map some : List Item).reduceOption = l := by
  induction l with
  | nil => rfl
  | cons b l ih => rw [List.map_cons, List.reduceOption_cons_of_some, ih]

@[simp]
theorem reduceOption_map_some_append (l : List UInt8) (s : List Item) :
    (l.map some ++ s).reduceOption = l ++ s.reduceOption := by
  rw [List.reduceOption_append, reduceOption_map_some]

end Reader

end Go
