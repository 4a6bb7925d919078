/-
# Sequences of events

A deterministic machine takes one event after another. A condition on single steps is asked of
every step of a run, with the state that the step starts from.
-/

import Mathlib.Data.List.Basic

namespace Semantics

variable {σ E : Type} {step : σ → E → σ} {P Q R : σ → E → Prop} {I : σ → Prop}

/-- Every step of the run from a state meets a condition. -/
def AlongSteps (step : σ → E → σ) (P : σ → E → Prop) : σ → List E → Prop
  | _, [] => True
  | s, e :: rest => P s e ∧ AlongSteps step P (step s e) rest

/-- Whether a concrete run meets a condition can be computed. -/
instance AlongSteps.instDecidable [∀ s e, Decidable (P s e)] :
    (s : σ) → (events : List E) → Decidable (AlongSteps step P s events)
  | _, [] => inferInstanceAs (Decidable True)
  | s, e :: rest =>
      have := AlongSteps.instDecidable (step s e) rest
      inferInstanceAs (Decidable (P s e ∧ AlongSteps step P (step s e) rest))

namespace AlongSteps

variable {s : σ} {events : List E}

/-- **Invariants.** What good steps keep holds at the end, and all steps have what it gives. -/
theorem invariant (hstep : ∀ s e, I s → P s e → Q s e ∧ I (step s e)) (hs : I s)
    (h : AlongSteps step P s events) : AlongSteps step Q s events ∧ I (events.foldl step s) := by
  induction events generalizing s with
  | nil => exact ⟨trivial, hs⟩
  | cons e rest ih =>
    obtain ⟨hQ, hnext⟩ := hstep s e hs h.1
    obtain ⟨hrest, hlast⟩ := ih hnext h.2
    exact ⟨⟨hQ, hrest⟩, hlast⟩

theorem mono (hstep : ∀ s e, P s e → Q s e) (h : AlongSteps step P s events) :
    AlongSteps step Q s events :=
  (h.invariant (I := fun _ => True) (fun s e _ hP => ⟨hstep s e hP, trivial⟩) trivial).1

/-- Two conditions that agree while an invariant holds, which the steps that meet them keep, are
met by the same runs. -/
theorem iff_of_invariant (hiff : ∀ s e, I s → P s e → (Q s e ↔ R s e))
    (hstep : ∀ s e, I s → P s e → Q s e → I (step s e)) (hs : I s)
    (h : AlongSteps step P s events) :
    AlongSteps step Q s events ↔ AlongSteps step R s events := by
  induction events generalizing s with
  | nil => exact Iff.rfl
  | cons e rest ih =>
    rw [AlongSteps, AlongSteps, ← hiff s e hs h.1]
    exact and_congr_right fun hQ => ih (hstep s e hs h.1 hQ) h.2

/-- **A point of no return.** A run that ends well is one whose steps all meet a condition, if
steps that meet it stay on course and all others go where nothing ends well. -/
theorem iff_of_doom {D Final Good : σ → Prop} (hcourse : ∀ s e, I s → P s e → Q s e → I (step s e))
    (hleave : ∀ s e, I s → P s e → ¬Q s e → D (step s e))
    (hdoom : ∀ s e, D s → P s e → D (step s e)) (hgood : ∀ s, I s → Final s → Good s)
    (hbad : ∀ s, D s → Final s → ¬Good s) (hs : I s) (h : AlongSteps step P s events)
    (hend : Final (events.foldl step s)) :
    Good (events.foldl step s) ↔ AlongSteps step Q s events := by
  have hlost : ∀ (events : List E) (s : σ), D s → AlongSteps step P s events →
      D (events.foldl step s) := fun events s hD h =>
    (h.invariant (fun s e hD hP => ⟨trivial, hdoom s e hD hP⟩) hD).2
  induction events generalizing s with
  | nil => exact ⟨fun _ => trivial, fun _ => hgood s hs hend⟩
  | cons e rest ih =>
    by_cases hQ : Q s e
    · have hrest := ih (hcourse s e hs h.1 hQ) h.2 hend
      exact hrest.trans ⟨fun hrest => ⟨hQ, hrest⟩, And.right⟩
    · have hD := hlost rest _ (hleave s e hs h.1 hQ) h.2
      exact ⟨fun hgood => absurd hgood (hbad _ hD hend), fun hall => absurd hall.1 hQ⟩

end AlongSteps

/-- Events that are good in every state make good runs. -/
theorem alongSteps_of_forall {events : List E} (h : ∀ e ∈ events, ∀ s, P s e) (s : σ) :
    AlongSteps step P s events := by
  induction events generalizing s with
  | nil => trivial
  | cons e rest ih =>
    rw [List.forall_mem_cons] at h
    exact ⟨h.1 s, ih h.2 _⟩

/-- A run may be cut anywhere. -/
theorem alongSteps_append {s : σ} {first second : List E} :
    AlongSteps step P s (first ++ second) ↔
      AlongSteps step P s first ∧ AlongSteps step P (first.foldl step s) second := by
  induction first generalizing s with
  | nil => simp [AlongSteps]
  | cons e rest ih => simp only [List.cons_append, AlongSteps, ih, List.foldl_cons, and_assoc]

end Semantics
