/-
# Rows by primary key

A table of a relational database: rows under distinct primary keys, which are strings and are
ordered as strings. `first` is a query for one row, ordered by primary key, and `updateWhere` a
statement that changes every row meeting a condition.
-/

import Mathlib.Data.String.Basic
import Wireflow.Go.Map

namespace Sql

open Go (GoMap)

/-- The rows of a table, by primary key. -/
abbrev Rows (α : Type) := GoMap String α

namespace Rows

variable {α : Type}

/-! ## The first row that meets a condition -/

/-- The candidate that comes first by primary key. -/
def earlier (best : Option (String × α)) (row : String × α) : Option (String × α) :=
  match best with
  | none => some row
  | some b => if row.1 < b.1 then some row else some b

/-- `WHERE test ORDER BY id LIMIT 1`. -/
def first (t : Rows α) (test : α → Bool) : Option (String × α) :=
  (t.pairs.filter fun row => test row.2).foldl earlier none

theorem foldl_earlier_some (rows : List (String × α)) (b : String × α) :
    ∃ r, rows.foldl earlier (some b) = some r ∧ (r = b ∨ r ∈ rows) ∧ r.1 ≤ b.1 ∧
      ∀ x ∈ rows, r.1 ≤ x.1 := by
  induction rows generalizing b with
  | nil => exact ⟨b, rfl, .inl rfl, le_refl _, by simp⟩
  | cons x rest ih =>
    rw [List.foldl_cons, earlier]
    by_cases hlt : x.1 < b.1
    · rw [if_pos hlt]
      obtain ⟨r, hr, hmem, hle, hall⟩ := ih x
      refine ⟨r, hr, .inr ?_, hle.trans hlt.le, ?_⟩
      · rcases hmem with rfl | hmem
        · exact List.mem_cons_self
        · exact List.mem_cons_of_mem _ hmem
      · rintro y (_ | ⟨_, hy⟩)
        · exact hle
        · exact hall y hy
    · rw [if_neg hlt]
      obtain ⟨r, hr, hmem, hle, hall⟩ := ih b
      refine ⟨r, hr, hmem.imp_right (List.mem_cons_of_mem _), hle, ?_⟩
      rintro y (_ | ⟨_, hy⟩)
      · exact hle.trans (not_lt.mp hlt)
      · exact hall y hy

variable {test : α → Bool} {t : Rows α} {a : α}

/-- The row found is stored, meets the condition, and has the least key of all that do. -/
theorem first_eq_some {id : String} (h : t.first test = some (id, a)) :
    t.lookup id = some a ∧ test a = true ∧
      ∀ id' a', t.lookup id' = some a' → test a' = true → id ≤ id' := by
  unfold first at h
  cases hrows : t.pairs.filter fun row => test row.2 with
  | nil =>
    rw [hrows] at h
    cases h
  | cons x rest =>
    rw [hrows] at h
    obtain ⟨r, hr, hmem, hle, hall⟩ := foldl_earlier_some rest x
    have hx : (id, a) = r := by
      exact Option.some.inj (h.symm.trans hr)
    subst hx
    have hin : (id, a) ∈ t.pairs.filter fun row => test row.2 := by
      rw [hrows]
      rcases hmem with rfl | hmem
      · exact List.mem_cons_self
      · exact List.mem_cons_of_mem _ hmem
    obtain ⟨hpair, htest⟩ := List.mem_filter.mp hin
    refine ⟨GoMap.mem_pairs.mp hpair, htest, fun id' a' hlookup htest' => ?_⟩
    have hin' : (id', a') ∈ t.pairs.filter fun row => test row.2 :=
      List.mem_filter.mpr ⟨GoMap.mem_pairs.mpr hlookup, htest'⟩
    rw [hrows] at hin'
    rcases List.mem_cons.mp hin' with rfl | hin'
    · exact hle
    · exact hall _ hin'

/-- A query that finds nothing, or a row. -/
theorem first_eq_none :
    t.first test = none ↔ ∀ id a, t.lookup id = some a → test a = false := by
  unfold first
  constructor
  · intro h id a hlookup
    cases hrows : t.pairs.filter fun row => test row.2 with
    | nil =>
      have hnone := List.filter_eq_nil_iff.mp hrows (id, a) (GoMap.mem_pairs.mpr hlookup)
      simpa using hnone
    | cons x rest =>
      rw [hrows, List.foldl_cons] at h
      obtain ⟨r, hr, -⟩ := foldl_earlier_some rest x
      rw [earlier, hr] at h
      cases h
  · intro h
    have hrows : (t.pairs.filter fun row => test row.2) = [] := by
      refine List.filter_eq_nil_iff.mpr fun row hrow => ?_
      simp [h row.1 row.2 (GoMap.mem_pairs.mp hrow)]
    rw [hrows]
    rfl

/-- The stored row with the least key of all that meet the condition is the one found. -/
theorem first_of_least {id : String} (hlookup : t.lookup id = some a) (htest : test a = true)
    (hleast : ∀ id' a', t.lookup id' = some a' → test a' = true → id ≤ id') :
    t.first test = some (id, a) := by
  cases hfirst : t.first test with
  | none =>
    rw [first_eq_none.mp hfirst id a hlookup] at htest
    cases htest
  | some row =>
    obtain ⟨id', a'⟩ := row
    obtain ⟨hlookup', htest', hle⟩ := first_eq_some hfirst
    obtain rfl : id' = id := le_antisymm (hle id a hlookup htest) (hleast id' a' hlookup' htest')
    rw [Option.some.inj (hlookup'.symm.trans hlookup)]

/-- A new row is found if its key comes before that of the row found so far. -/
theorem first_insert_of_lt {id : String} (htest : test a = true)
    (hlt : ∀ key b, t.first test = some (key, b) → id < key) :
    first (t.insert id a) test = some (id, a) := by
  refine first_of_least (AList.lookup_insert _) htest fun id' a' hlookup' htest' => ?_
  by_cases hid : id' = id
  · exact hid.ge
  · rw [AList.lookup_insert_ne hid] at hlookup'
    cases hfirst : t.first test with
    | none =>
      rw [first_eq_none.mp hfirst id' a' hlookup'] at htest'
      cases htest'
    | some row =>
      exact (hlt row.1 row.2 hfirst).le.trans ((first_eq_some hfirst).2.2 id' a' hlookup' htest')

/-- Otherwise that row is still the one found. -/
theorem first_insert_of_le {id key : String} {a b : α} (hfree : t.lookup id = none)
    (hfirst : t.first test = some (key, b)) (hle : key ≤ id) :
    first (t.insert id a) test = some (key, b) := by
  obtain ⟨hlookup, htest, hleast⟩ := first_eq_some hfirst
  have hne : key ≠ id := by
    rintro rfl
    rw [hfree] at hlookup
    cases hlookup
  refine first_of_least ((AList.lookup_insert_ne hne).trans hlookup) htest
    fun id' a' hlookup' htest' => ?_
  by_cases hid : id' = id
  · exact hle.trans hid.ge
  · rw [AList.lookup_insert_ne hid] at hlookup'
    exact hleast id' a' hlookup' htest'

/-! ## Changes -/

/-- `UPDATE … WHERE`: change the rows that meet a condition. -/
def updateWhere (t : Rows α) (test : String → α → Bool) (change : α → α) : Rows α where
  entries := t.entries.map (.map id fun key a => if test key a then change a else a)
  nodupKeys := List.NodupKeys.map₂ _ _ t.nodupKeys

@[simp] theorem lookup_updateWhere (t : Rows α) (test : String → α → Bool) (change : α → α)
    (id : String) :
    (t.updateWhere test change).lookup id =
      (t.lookup id).map fun a => if test id a then change a else a :=
  List.dlookup_map₂ id

/-- Insert a row under a new primary key. -/
def create (t : Rows α) (id : String) (a : α) : Option (Rows α) :=
  if (t.lookup id).isSome then none else some (t.insert id a)

theorem create_eq_some {t t' : Rows α} {id : String} (h : t.create id a = some t') :
    t.lookup id = none ∧ t' = t.insert id a := by
  unfold create at h
  split_ifs at h with hid
  exact ⟨by simpa using hid, (Option.some.inj h).symm⟩

end Rows

end Sql
