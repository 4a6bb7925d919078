/-
# Programs that learn

Between two calls of a worker the others act. What the worker still knows after that are *stable*
facts, those that no call breaks. A program is *informed* if every call it issues needs only facts
that earlier answers have taught it, and if it goes wrong only after answers that never come.

`Workers.invariant_of_informed` turns this property of program trees into an invariant of all
schedules, with no further argument about interleavings.
-/

import Mathlib.Data.Set.Basic
import Wireflow.Semantics.RelyGuarantee

namespace Semantics

variable {ι C : Type} {R : C → Type} {σ κ ε Φ α : Type}

/-- What a call needs to be known, which answers it may get, and what they teach. -/
structure Lore (C : Type) (R : C → Type) (Φ : Type) where
  needs : C → Set Φ → Prop
  allows : (c : C) → R c → Prop
  teaches : (c : C) → R c → Set Φ

namespace Program

/-- Knowing `F`, the program issues only calls whose needs are known. -/
def Informed (L : Lore C R Φ) : Program C R α → Set Φ → Prop
  | ret _, _ => True
  | call c resume, F =>
      L.needs c F ∧ ∀ r, L.allows c r → (resume r).Informed L (F ∪ L.teaches c r)

end Program

namespace Contract

/-- The contract of workers that count on stable facts. -/
def ofFacts (I : σ → Prop) (holds : Φ → σ → Prop) (admits : ι → C → κ → σ → Prop) :
    Contract ι C σ κ ε where
  inv := I
  rely _ s t := ∀ φ, holds φ s → holds φ t
  guar _ s t := ∀ φ, holds φ s → holds φ t
  admits := admits
  admitsEnv _ _ := True

variable {I : σ → Prop} {holds : Φ → σ → Prop} {admits : ι → C → κ → σ → Prop}
  {exec : (c : C) → κ → σ → R c × σ} {i : ι} {L : Lore C R Φ}

/-- A set of facts is as stable as each of them. -/
theorem stable_facts (F : Set Φ) :
    (ofFacts I holds admits : Contract ι C σ κ ε).Stable i fun s => ∀ φ ∈ F, holds φ s :=
  fun _ _ hs hrely φ hφ => hrely φ (hs φ hφ)

theorem wp_of_informed
    (hcall : ∀ c choice s F, L.needs c F → (∀ φ ∈ F, holds φ s) → I s → admits i c choice s →
      I (exec c choice s).2 ∧ (∀ φ, holds φ s → holds φ (exec c choice s).2) ∧
        L.allows c (exec c choice s).1 ∧
        ∀ φ ∈ L.teaches c (exec c choice s).1, holds φ (exec c choice s).2)
    {p : Program C R α} {F : Set Φ} (hp : p.Informed L F) {s : σ} (hs : ∀ φ ∈ F, holds φ s) :
    (ofFacts I holds admits : Contract ι C σ κ ε).wp exec i p (fun _ _ => True) s := by
  induction p generalizing F s with
  | ret a => trivial
  | call c resume ih =>
    refine wp_call _ (stable_facts F) hs fun t ht hinv choice hadm => ?_
    obtain ⟨hinv', hkept, hallowed, htaught⟩ := hcall c choice t F hp.1 ht hinv hadm
    refine ⟨hinv', hkept, ih _ (hp.2 _ hallowed) fun φ hφ => ?_⟩
    exact hφ.elim (fun h => hkept φ (ht φ h)) (htaught φ)

end Contract

/-- **Informed workers.** If all calls keep the invariant and the facts, given what they need, and
are answered and teach as the lore of their worker says, then the invariant holds after every
admitted schedule of informed workers. -/
theorem Workers.invariant_of_informed [DecidableEq ι] {W : Workers ι C R σ κ ε} {I : σ → Prop}
    {holds : Φ → σ → Prop} {admits : ι → C → κ → σ → Prop} {L : ι → Lore C R Φ}
    (hprogram : ∀ i, (W.program i).Informed (L i) ∅)
    (hcall : ∀ i c choice s F, (L i).needs c F → (∀ φ ∈ F, holds φ s) → I s →
      admits i c choice s →
      I (W.exec c choice s).2 ∧ (∀ φ, holds φ s → holds φ (W.exec c choice s).2) ∧
        (L i).allows c (W.exec c choice s).1 ∧
        ∀ φ ∈ (L i).teaches c (W.exec c choice s).1, holds φ (W.exec c choice s).2)
    (henv : ∀ e s, I s → I (W.disturb e s) ∧ ∀ φ, holds φ s → holds φ (W.disturb e s))
    {s : σ} (hs : I s) {schedule : List (Action ι κ ε)}
    (halong : (Contract.ofFacts I holds admits).Along W (Workers.idle s) schedule) :
    I (W.run (Workers.idle s) schedule).shared := by
  have hrespects : (Contract.ofFacts I holds admits).Respects W :=
    { program := fun i t _ _ => Contract.wp_of_informed (hcall i) (hprogram i) nofun
      stable := fun _ _ _ _ _ => trivial
      compat := fun _ _ _ _ _ h => h
      env := fun e t ht _ => ⟨(henv e t ht).1, fun _ => (henv e t ht).2⟩ }
  exact ((Contract.sound_idle hs fun _ => trivial).run hrespects halong).inv

end Semantics
