/-
# First-match chains

A packet filter is a list of rules read from the top: the first rule that matches
decides. When the list is emitted in an order nobody controls, what the chain
does for certain is what it does under every permutation, and that no longer
mentions the order: some rule matches, and every matching rule accepts
(`forall_perm_accepts_iff`). A list that is read in two ways, by what the rules say and
by what was installed for them, has one verdict under the condition of
`accepts_eq_accepts_iff`.
-/

import Wireflow.Go.Map

namespace Semantics.FirstMatch

open List

variable {ρ : Type} {applies accept : ρ → Bool}

/-- The verdict of a chain: that of the first rule that applies, and otherwise no. -/
def accepts (applies accept : ρ → Bool) (rules : List ρ) : Bool :=
  match rules.find? applies with
  | some r => accept r
  | none => false

/-- A last rule that rejects changes nothing. -/
theorem accepts_append_reject {tail : ρ} (htail : accept tail = false) (rules : List ρ) :
    accepts applies accept (rules ++ [tail]) = accepts applies accept rules := by
  unfold accepts
  rw [find?_append]
  cases rules.find? applies with
  | some r => rfl
  | none => cases h : applies tail <;> simp [h, htail]

variable {r : ρ}

theorem accepts_cons_of_pos (h : applies r = true) (rules : List ρ) :
    accepts applies accept (r :: rules) = accept r := by
  simp [accepts, find?_cons_of_pos h]

theorem accepts_cons_of_neg (h : applies r = false) (rules : List ρ) :
    accepts applies accept (r :: rules) = accepts applies accept rules := by
  simp [accepts, find?_cons_of_neg, h]

/-- The verdict of a chain that lets through what none of its rules applies to. -/
def passes (applies pass : ρ → Bool) (rules : List ρ) : Bool :=
  match rules.find? applies with
  | some r => pass r
  | none => true

theorem passes_cons_of_neg (h : applies r = false) (rules : List ρ) :
    passes applies accept (r :: rules) = passes applies accept rules := by
  simp [passes, find?_cons_of_neg, h]

theorem passes_append_of_neg (h : applies r = false) (rules : List ρ) :
    passes applies accept (rules ++ [r]) = passes applies accept rules := by
  unfold passes
  rw [find?_append]
  cases rules.find? applies <;> simp [h]

/-- A last rule that rejects everything makes the two verdicts one. -/
theorem passes_append_last {tail : ρ} (happlies : applies tail = true)
    (htail : accept tail = false) (rules : List ρ) :
    passes applies accept (rules ++ [tail]) = accepts applies accept rules := by
  unfold passes accepts
  rw [find?_append]
  cases rules.find? applies with
  | some r => rfl
  | none => simp [happlies, htail]

variable {rules : List ρ}

/-- Rules that all accept. -/
theorem accepts_of_all (h : ∀ r ∈ rules, accept r = true) :
    accepts applies accept rules = rules.any applies := by
  unfold accepts
  cases hfind : rules.find? applies with
  | none =>
    symm
    exact any_eq_false.mpr fun r hr => find?_eq_none.mp hfind r hr
  | some r =>
    have hmem := mem_of_find?_eq_some hfind
    rw [any_eq_true.mpr ⟨r, hmem, find?_some hfind⟩]
    exact h r hmem

/-- The verdict depends on the rules of the list only. -/
theorem accepts_congr {accept' : ρ → Bool} (h : ∀ r ∈ rules, accept r = accept' r) :
    accepts applies accept rules = accepts applies accept' rules := by
  unfold accepts
  cases hfind : rules.find? applies with
  | none => rfl
  | some r => exact h r (mem_of_find?_eq_some hfind)

/-- Rules that are installed as several entries each, with one verdict for all of them. -/
theorem accepts_flatMap {ε : Type} {applies accept : ε → Bool} {entries : ρ → List ε}
    {caught verdict : ρ → Bool} (hany : ∀ r, (entries r).any applies = caught r)
    (hverdict : ∀ r, ∀ e ∈ entries r, accept e = verdict r) (rules : List ρ) :
    accepts applies accept (rules.flatMap entries) = accepts caught verdict rules := by
  induction rules with
  | nil => rfl
  | cons r rules ih =>
    have hcaught := hany r
    cases hfind : (entries r).find? applies with
    | none =>
      -- no entry applies, and the verdict is that of the rest
      rw [any_eq_false.mpr fun e he => find?_eq_none.mp hfind e he] at hcaught
      rw [accepts_cons_of_neg hcaught.symm, ← ih]
      simp [accepts, find?_append, hfind]
    | some e =>
      have hmem := mem_of_find?_eq_some hfind
      rw [any_eq_true.mpr ⟨e, hmem, find?_some hfind⟩] at hcaught
      rw [accepts_cons_of_pos hcaught.symm, ← hverdict r e hmem]
      simp [accepts, find?_append, hfind]

/-- **Two readings of one list**, where a rule that applies in the strict reading applies in the
loose one. They agree when the first rule that applies loosely either applies strictly, with one
verdict, or has the verdict that the strict reading gives to the rules behind it. -/
theorem accepts_eq_accepts_iff {loose strict verdict verdict' : ρ → Bool}
    (hsub : ∀ r, strict r = true → loose r = true) (rules : List ρ) :
    accepts loose verdict rules = accepts strict verdict' rules ↔
      ∀ front r back, rules = front ++ r :: back → (∀ q ∈ front, loose q = false) →
        loose r = true →
          if strict r then verdict r = verdict' r
          else verdict r = accepts strict verdict' back := by
  induction rules with
  | nil => simp [accepts]
  | cons a rules ih =>
    by_cases hloose : loose a = true
    · -- the first rule decides the loose reading, so no other split of the list counts
      have hfirst : (∀ front r back, a :: rules = front ++ r :: back →
          (∀ q ∈ front, loose q = false) → loose r = true →
            if strict r then verdict r = verdict' r
            else verdict r = accepts strict verdict' back) ↔
          if strict a then verdict a = verdict' a
          else verdict a = accepts strict verdict' rules := by
        constructor
        · intro h
          exact h [] a rules rfl (by simp) hloose
        · intro h front r back hsplit hfront _
          cases front with
          | nil =>
            cases hsplit
            exact h
          | cons q front =>
            cases hsplit
            simp [hloose] at hfront
      rw [hfirst, accepts_cons_of_pos hloose]
      by_cases hstrict : strict a = true
      · rw [accepts_cons_of_pos hstrict, if_pos hstrict]
      · rw [accepts_cons_of_neg (by simpa using hstrict), if_neg hstrict]
    · rw [Bool.not_eq_true] at hloose
      have hstrict : strict a = false := by
        by_contra hne
        rw [Bool.not_eq_false] at hne
        simp [hsub a hne] at hloose
      rw [accepts_cons_of_neg hloose, accepts_cons_of_neg hstrict, ih]
      constructor
      · intro h front r back hsplit hfront hr
        cases front with
        | nil =>
          cases hsplit
          simp [hloose] at hr
        | cons q front =>
          cases hsplit
          exact h front r back rfl (fun p hp => hfront p (.tail _ hp)) hr
      · intro h front r back hsplit hfront hr
        refine h (a :: front) r back (by rw [hsplit]; rfl) ?_ hr
        simpa [hloose] using hfront

theorem exists_of_accepts (h : accepts applies accept rules = true) :
    ∃ r ∈ rules, applies r = true ∧ accept r = true := by
  unfold accepts at h
  cases hfind : rules.find? applies with
  | none => simp [hfind] at h
  | some r =>
    rw [hfind] at h
    exact ⟨r, mem_of_find?_eq_some hfind, find?_some hfind, h⟩

theorem accepts_of_forall (hsome : ∃ r ∈ rules, applies r = true)
    (hall : ∀ r ∈ rules, applies r = true → accept r = true) :
    accepts applies accept rules = true := by
  obtain ⟨r, hmem, happlies⟩ := hsome
  unfold accepts
  cases hfind : rules.find? applies with
  | none => exact absurd happlies (by simpa using find?_eq_none.mp hfind r hmem)
  | some r' => exact hall r' (mem_of_find?_eq_some hfind) (find?_some hfind)

/-- **Acceptance in every order.** -/
theorem forall_perm_accepts_iff :
    (∀ rules' : List ρ, rules'.Perm rules → accepts applies accept rules' = true) ↔
      (∃ r ∈ rules, applies r = true) ∧ ∀ r ∈ rules, applies r = true → accept r = true := by
  constructor
  · intro h
    obtain ⟨r, hmem, happlies, -⟩ := exists_of_accepts (h rules (.refl _))
    refine ⟨⟨r, hmem, happlies⟩, fun r' hmem' happlies' => ?_⟩
    -- the order that reads `r'` first has to accept as well
    obtain ⟨front, back, rfl⟩ := append_of_mem hmem'
    have hfirst := h (r' :: (front ++ back)) perm_middle.symm
    simpa [accepts, find?_cons_of_pos happlies'] using hfirst
  · rintro ⟨⟨r, hmem, happlies⟩, hall⟩ rules' hperm
    refine accepts_of_forall ⟨r, hperm.mem_iff.mpr hmem, happlies⟩ fun r' hmem' => ?_
    exact hall r' (hperm.mem_iff.mp hmem')

/-- The same over the orders of a map traversal. -/
theorem forall_visit_accepts_iff :
    (∀ order : Go.Order, accepts applies accept (order.visit rules) = true) ↔
      (∃ r ∈ rules, applies r = true) ∧ ∀ r ∈ rules, applies r = true → accept r = true := by
  rw [← forall_perm_accepts_iff]
  constructor
  · intro h rules' hperm
    obtain ⟨order, rfl⟩ := Go.Order.exists_visit_eq hperm
    exact h order
  · intro h order
    exact h _ (Go.Order.visit_perm order rules)

end Semantics.FirstMatch
