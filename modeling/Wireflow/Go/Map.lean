/-
# Maps without an order

A Go map is a finite set of key–value pairs; ranging over it visits the pairs in
an order the language leaves open and that differs from one `range` to the next.

The map is an association list with distinct keys, and the order of a traversal
is an argument of the traversal. An `Order` says, whenever `n + 1` pairs remain,
which of them comes next. It is plain data, so a traversal evaluates, and every
permutation of the pairs arises from one (`Order.exists_visit_eq`).
-/

import Mathlib.Data.List.AList
import Mathlib.Data.List.Perm.Basic

namespace Go

open Function

/-- A Go `map[κ]β`. -/
abbrev GoMap (κ β : Type) := AList fun _ : κ => β

/-- An order of traversal: the position of the next pair, by how many remain
after it. -/
abbrev Order := ℕ → ℕ

namespace Order

variable {α β : Type}

/-- Visit `n` of the remaining elements in the given order. -/
def visitAux (order : Order) : ℕ → List α → List α
  | 0, _ => []
  | n + 1, l =>
      match l[order n % l.length]? with
      | some a => a :: visitAux order n (l.eraseIdx (order n % l.length))
      | none => []

variable (order : Order)

/-- All elements of a list, in the given order. -/
def visit (l : List α) : List α := visitAux order l.length l

/-- The order that changes nothing. -/
def inPlace : Order := fun _ => 0

theorem visitAux_perm (n : ℕ) (l : List α) (hn : l.length = n) :
    (visitAux order n l).Perm l := by
  induction n generalizing l with
  | zero => rw [List.length_eq_zero_iff.mp hn]; exact .refl _
  | succ n ih =>
    have hlt : order n % l.length < l.length := Nat.mod_lt _ (by omega)
    rw [visitAux, List.getElem?_eq_getElem hlt]
    refine (List.Perm.cons _ (ih _ ?_)).trans (List.getElem_cons_eraseIdx_perm hlt)
    rw [List.length_eraseIdx_of_lt hlt]
    omega

/-- A traversal visits every element once. -/
theorem visit_perm (l : List α) : (order.visit l).Perm l :=
  visitAux_perm order _ l rfl

@[simp] theorem mem_visit {order : Order} {l : List α} {a : α} : a ∈ order.visit l ↔ a ∈ l :=
  (visit_perm order l).mem_iff

/-- With at most one element there is only one order. -/
theorem visit_of_length_le_one {l : List α} (h : l.length ≤ 1) :
    order.visit l = l := by
  cases l with
  | nil => rfl
  | cons a rest =>
    obtain rfl : rest = [] := List.length_eq_zero_iff.mp (by simpa using h)
    exact List.perm_singleton.mp (visit_perm order [a])

/-- Only the choices still to be made matter. -/
theorem visitAux_congr {order order' : Order} (n : ℕ) (l : List α)
    (h : ∀ k < n, order k = order' k) : visitAux order n l = visitAux order' n l := by
  induction n generalizing l with
  | zero => rfl
  | succ n ih =>
    rw [visitAux, visitAux, h n (Nat.lt_succ_self n)]
    cases l[order' n % l.length]? with
    | none => rfl
    | some a => exact congrArg (a :: ·) (ih _ fun k hk => h k (Nat.lt_succ_of_lt hk))

theorem visitAux_map (f : α → β) (n : ℕ) (l : List α) :
    visitAux order n (l.map f) = (visitAux order n l).map f := by
  induction n generalizing l with
  | zero => rfl
  | succ n ih =>
    rw [visitAux, visitAux, List.length_map, List.getElem?_map]
    cases l[order n % l.length]? with
    | none => rfl
    | some a =>
      rw [Option.map_some]
      simp only [List.map_cons, List.eraseIdx_map, ih]

/-- The order does not look at the elements. -/
theorem visit_map (f : α → β) (l : List α) :
    order.visit (l.map f) = (order.visit l).map f := by
  rw [visit, visit, List.length_map, visitAux_map]

/-- Every permutation is a traversal. -/
theorem exists_visit_eq {l target : List α} (h : target.Perm l) :
    ∃ order : Order, order.visit l = target := by
  induction target generalizing l with
  | nil => rw [← List.Perm.nil_eq h]; exact ⟨inPlace, rfl⟩
  | cons a rest ih =>
    obtain ⟨i, hi, hget⟩ := List.getElem_of_mem (h.subset List.mem_cons_self)
    have hrest : rest.Perm (l.eraseIdx i) := by
      refine List.Perm.cons_inv (h.trans ?_)
      rw [← hget]
      exact (List.getElem_cons_eraseIdx_perm hi).symm
    obtain ⟨order, horder⟩ := ih hrest
    have hlen : l.length = (l.eraseIdx i).length + 1 := by
      rw [List.length_eraseIdx_of_lt hi]; omega
    -- the first choice is `i`; the later ones are those of the shorter traversal
    refine ⟨update order (l.eraseIdx i).length i, ?_⟩
    rw [visit, hlen, visitAux, update_self, Nat.mod_eq_of_lt hi,
      List.getElem?_eq_getElem hi, hget]
    refine congrArg (a :: ·) (Eq.trans ?_ horder)
    exact visitAux_congr _ _ fun k hk => update_of_ne (Nat.ne_of_lt hk) _ _

end Order

namespace GoMap

variable {κ β : Type} [DecidableEq κ]

variable (m : GoMap κ β)

/-- The pairs of a map, as stored. -/
def pairs : List (κ × β) := m.entries.map fun e => (e.1, e.2)

/-- `for k, v := range m`, in the given order. -/
def range (order : Order) : List (κ × β) := order.visit m.pairs

theorem mem_pairs {m : GoMap κ β} {k : κ} {v : β} : (k, v) ∈ m.pairs ↔ m.lookup k = some v := by
  rw [← Option.mem_def, AList.mem_lookup_iff, pairs, List.mem_map]
  constructor
  · rintro ⟨⟨k', v'⟩, hmem, heq⟩
    obtain ⟨rfl, rfl⟩ := Prod.mk.inj heq
    exact hmem
  · intro hmem
    exact ⟨⟨k, v⟩, hmem, rfl⟩

theorem mem_range {m : GoMap κ β} {order : Order} {k : κ} {v : β} :
    (k, v) ∈ m.range order ↔ m.lookup k = some v := by
  rw [range, Order.mem_visit, mem_pairs]

omit [DecidableEq κ] in
theorem nodup_keys_pairs : (m.pairs.map Prod.fst).Nodup := by
  have hkeys : m.pairs.map Prod.fst = m.keys := by
    simp [pairs, AList.keys, List.keys, comp_def]
  rw [hkeys]
  exact m.keys_nodup

/-- The map literal with the given pairs. -/
def ofPairs (entries : List (κ × β)) : GoMap κ β :=
  entries.foldl (fun m e => m.insert e.1 e.2) ∅

/-- Maps kept in the same order are compared entry by entry. -/
instance instDecidableEqGoMap [DecidableEq β] : DecidableEq (GoMap κ β) := fun _ _ =>
  decidable_of_iff _ AList.ext_iff.symm

/-- `reflect.DeepEqual` on maps: the same pairs, in whatever order they are kept. -/
def deepEqual [DecidableEq β] (m' : GoMap κ β) : Bool := m.pairs.isPerm m'.pairs

/-- Delete every key satisfying a test. -/
def deleteWhere (test : κ → Bool) : GoMap κ β :=
  (m.keys.filter test).foldl (fun acc k => acc.erase k) m

theorem lookup_foldl_erase (ks : List κ) (m : GoMap κ β) (k : κ) :
    (ks.foldl (fun acc k => acc.erase k) m).lookup k =
      if k ∈ ks then none else m.lookup k := by
  induction ks generalizing m with
  | nil => simp
  | cons a rest ih =>
    rw [List.foldl_cons, ih]
    by_cases hk : k = a
    · subst hk; simp
    · simp [hk, AList.lookup_erase_ne hk]

theorem lookup_deleteWhere (test : κ → Bool) (k : κ) :
    (m.deleteWhere test).lookup k = if test k then none else m.lookup k := by
  rw [deleteWhere, lookup_foldl_erase]
  by_cases htest : test k
  · by_cases hk : k ∈ m.keys
    · simp [htest, hk]
    · have hnone : m.lookup k = none := AList.lookup_eq_none.mpr hk
      simp [htest, hk, hnone]
  · simp [htest]

end GoMap

end Go
