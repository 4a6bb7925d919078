/-
# Loops that accumulate

A loop over a list either folds an accumulator or folds it as long as no pass fails.
Each lemma derives what the whole loop establishes from what one pass does.
-/

import Mathlib.Data.List.Basic

namespace Semantics

variable {ε α β : Type}

/-! ## Plain loops -/

section Fold

variable {f : α → β → α} {Q : α → Prop} {R : β → Prop}

/-- What a pass establishes or finds established, the loop establishes for some element. -/
theorem foldl_or (hstep : ∀ a x, Q (f a x) ↔ Q a ∨ R x) (l : List β) (a : α) :
    Q (l.foldl f a) ↔ Q a ∨ ∃ x ∈ l, R x := by
  induction l generalizing a with
  | nil => simp
  | cons x l ih => rw [List.foldl_cons, ih, hstep, List.exists_mem_cons_iff, or_assoc]

/-- What can only come from a pass comes from some element. -/
theorem foldl_cases (hstep : ∀ a x, Q (f a x) → Q a ∨ R x) (l : List β) (a : α)
    (h : Q (l.foldl f a)) : Q a ∨ ∃ x ∈ l, R x := by
  induction l generalizing a with
  | nil => exact .inl h
  | cons x l ih =>
    rw [List.exists_mem_cons_iff]
    rcases ih _ h with hfirst | hrest
    · exact (hstep a x hfirst).imp_right .inl
    · exact .inr (.inr hrest)

end Fold

/-! ## Loops that may fail -/

section FoldM

variable {f : α → β → Except ε α}

theorem bind_eq_ok {γ : Type} {x : Except ε α} {g : α → Except ε γ} {c : γ} :
    (x >>= g) = .ok c ↔ ∃ a, x = .ok a ∧ g a = .ok c := by
  cases x with
  | error e | ok a => simp [bind, Except.bind]

variable {a b : α}

theorem foldlM_nil_eq_ok (h : ([] : List β).foldlM f a = .ok b) : a = b := by
  simpa [pure, Except.pure] using h

variable {l : List β}

/-- `foldl_or` for a loop that ran to its end. -/
theorem foldlM_or {Q : α → Prop} {R : β → Prop} (h : l.foldlM f a = .ok b)
    (hstep : ∀ a x b, f a x = .ok b → (Q b ↔ Q a ∨ R x)) :
    Q b ↔ Q a ∨ ∃ x ∈ l, R x := by
  induction l generalizing a with
  | nil => simp [foldlM_nil_eq_ok h]
  | cons x l ih =>
    rw [List.foldlM_cons, bind_eq_ok] at h
    obtain ⟨c, hc, hrest⟩ := h
    rw [ih hrest, hstep a x c hc, List.exists_mem_cons_iff, or_assoc]

/-- What every pass preserves, the loop preserves. -/
theorem foldlM_induct {P : α → Prop} (h : l.foldlM f a = .ok b)
    (hstep : ∀ a x b, f a x = .ok b → P a → P b) (ha : P a) : P b := by
  induction l generalizing a with
  | nil => exact foldlM_nil_eq_ok h ▸ ha
  | cons x l ih =>
    rw [List.foldlM_cons, bind_eq_ok] at h
    obtain ⟨c, hc, hrest⟩ := h
    exact ih hrest (hstep a x c hc ha)

/-- A loop of which no pass fails runs to its end. -/
theorem exists_foldlM (hstep : ∀ a, ∀ x ∈ l, ∃ b, f a x = .ok b) (a : α) :
    ∃ b, l.foldlM f a = .ok b := by
  induction l generalizing a with
  | nil => exact ⟨a, rfl⟩
  | cons x l ih =>
    obtain ⟨c, hc⟩ := hstep a x List.mem_cons_self
    obtain ⟨b, hb⟩ := ih (fun a x hx => hstep a x (List.mem_cons_of_mem _ hx)) c
    exact ⟨b, by rw [List.foldlM_cons, bind_eq_ok]; exact ⟨c, hc, hb⟩⟩

end FoldM

end Semantics
