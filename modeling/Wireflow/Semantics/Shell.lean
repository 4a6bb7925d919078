/-
# Programs that run commands

A program that changes a machine only by running commands, each of which exits
cleanly or with something on standard error. What a command does to the machine is
a partial step function; whether it gets that far is decided outside, by the faults.
A command that fails leaves the machine as it was.

`runAll` is the common shape of a script with an early return: run one command after
the other and stop at the first that fails. Such a script succeeds exactly when
every step does, and then it has made all of them (`view_of_run_runAll`).

`Always` speaks about every state that a run passes through, and not only about the last.
-/

import Mathlib.Data.Nat.Notation
import Wireflow.Semantics.Program

namespace Semantics

/-- How a command exits: cleanly, or with what it wrote to standard error. -/
abbrev Exit := Except String Unit

/-- A program that runs commands. -/
abbrev Shell (C : Type) := Program C fun _ => Exit

/-- The machine, and how many commands it has been given. -/
structure Host (σ : Type) where
  state : σ
  issued : ℕ := 0

namespace Shell

open Program

variable {C σ : Type} {step : C → σ → Except String σ} {faults : ℕ → Option String} {c : C}
  {h h' : Host σ}

/-- Run one command. `faults n` is what makes the `n`-th command fail from outside. -/
def exec (step : C → σ → Except String σ) (faults : ℕ → Option String) (c : C) (h : Host σ) :
    Exit × Host σ :=
  match faults h.issued with
  | some stderr => (.error stderr, ⟨h.state, h.issued + 1⟩)
  | none =>
      match step c h.state with
      | .error stderr => (.error stderr, ⟨h.state, h.issued + 1⟩)
      | .ok s => (.ok (), ⟨s, h.issued + 1⟩)

/-- A command fails and changes nothing, or it makes its step. -/
theorem exec_cases (step : C → σ → Except String σ) (faults : ℕ → Option String) (c : C)
    (h : Host σ) :
    (∃ stderr, exec step faults c h = (.error stderr, ⟨h.state, h.issued + 1⟩)) ∨
      ∃ s, step c h.state = .ok s ∧ exec step faults c h = (.ok (), ⟨s, h.issued + 1⟩) := by
  unfold exec
  cases faults h.issued with
  | some stderr => exact .inl ⟨stderr, rfl⟩
  | none =>
    cases step c h.state with
    | error stderr => exact .inl ⟨stderr, rfl⟩
    | ok s => exact .inr ⟨s, rfl, rfl⟩

/-- What the step keeps is kept, whether or not the command gets that far. -/
theorem exec_preserves {J : σ → Prop} (hs : J h.state)
    (hstep : ∀ s, step c h.state = .ok s → J s) : J (exec step faults c h).2.state := by
  rcases exec_cases step faults c h with ⟨stderr, hexec⟩ | ⟨s, hok, hexec⟩
  · rw [hexec]
    exact hs
  · rw [hexec]
    exact hstep s hok

/-- Run the commands in order, up to the first that fails. -/
def runAll : List C → Shell C Exit
  | [] => pure (.ok ())
  | c :: cs => do
      match ← perform c with
      | .error stderr => pure (.error stderr)
      | .ok _ => runAll cs

/-- A script that succeeds has made every step. `view` is the part of the machine that is
looked at, and `effect` what a step does to it. -/
theorem view_of_run_runAll {γ : Type} {view : σ → γ} {effect : γ → C → γ}
    (hstep : ∀ c s s', step c s = .ok s' → view s' = effect (view s) c) {cs : List C}
    (hrun : (runAll cs).run (exec step faults) h = (.ok (), h')) :
    view h'.state = cs.foldl effect (view h.state) := by
  induction cs generalizing h with
  | nil =>
    cases hrun
    rfl
  | cons c cs ih =>
    change Program.run _ _ (exec step faults c h).2 = _ at hrun
    rcases exec_cases step faults c h with ⟨stderr, hexec⟩ | ⟨s, hs, hexec⟩
    · rw [hexec] at hrun
      cases hrun
    · rw [hexec] at hrun
      rw [List.foldl_cons, ← hstep c _ _ hs]
      exact ih hrun

end Shell

/-! ## Every state along a run -/

namespace Program

variable {C : Type} {R : C → Type} {α β σ : Type} {handle : (c : C) → σ → R c × σ}
  {J : σ → Prop} {s : σ}

/-- `J` holds at the start of the run, after each of its calls, and so at its end. -/
def Always (handle : (c : C) → σ → R c × σ) (J : σ → Prop) : Program C R α → σ → Prop
  | ret _, s => J s
  | call c resume, s => J s ∧ (resume (handle c s).1).Always handle J (handle c s).2

theorem always_call {c : C} {resume : R c → Program C R α} :
    (call c resume).Always handle J s ↔
      J s ∧ (resume (handle c s).1).Always handle J (handle c s).2 := Iff.rfl

variable {p : Program C R α}

theorem Always.start (hp : p.Always handle J s) : J s := by
  cases p with
  | ret a => exact hp
  | call c resume => exact hp.1

theorem Always.last (hp : p.Always handle J s) : J (p.run handle s).2 := by
  induction p generalizing s with
  | ret a => exact hp
  | call c resume ih => exact ih _ hp.2

/-- The states of a composite are those of its first part and then those of the second. -/
theorem always_bind {f : α → Program C R β} :
    (p >>= f).Always handle J s ↔
      p.Always handle J s ∧ (f (p.run handle s).1).Always handle J (p.run handle s).2 := by
  induction p generalizing s with
  | ret a => exact ⟨fun h => ⟨h.start, h⟩, fun h => h.2⟩
  | call c resume ih =>
    rw [call_bind, always_call, always_call, ih, and_assoc]
    rfl

theorem Always.mono {J' : σ → Prop} (hp : p.Always handle J s) (h : ∀ t, J t → J' t) :
    p.Always handle J' s := by
  induction p generalizing s with
  | ret a => exact h s hp
  | call c resume ih => exact ⟨h s hp.1, ih _ hp.2⟩

theorem Always.and {J' : σ → Prop} (hp : p.Always handle J s) (hp' : p.Always handle J' s) :
    p.Always handle (fun t => J t ∧ J' t) s := by
  induction p generalizing s with
  | ret a => exact ⟨hp, hp'⟩
  | call c resume ih => exact ⟨⟨hp.1, hp'.1⟩, ih _ hp.2 hp'.2⟩

/-- What every permitted call preserves holds all along. -/
theorem always_of_within {P : C → Prop} {Q : α → Prop} (hp : p.Within P Q)
    (hstep : ∀ c t, P c → J t → J (handle c t).2) (hs : J s) : p.Always handle J s := by
  induction p generalizing s with
  | ret a => exact hs
  | call c resume ih => exact ⟨hs, ih _ (hp.2 _) (hstep c s hp.1 hs)⟩

end Program

namespace Shell

open Program

variable {C σ : Type} {step : C → σ → Except String σ} {faults : ℕ → Option String} {c : C}
  {cs : List C} {h : Host σ} {J : Host σ → Prop}

/-- The states of a script whose first command fails. -/
theorem always_runAll_of_error {stderr : String} {h' : Host σ}
    (hexec : exec step faults c h = (.error stderr, h')) :
    (runAll (c :: cs)).Always (exec step faults) J h ↔ J h ∧ J h' := by
  change J h ∧ Always _ J _ (exec step faults c h).2 ↔ _
  rw [hexec]
  rfl

/-- The states of a script whose first command succeeds. -/
theorem always_runAll_of_ok {h' : Host σ} (hexec : exec step faults c h = (.ok (), h')) :
    (runAll (c :: cs)).Always (exec step faults) J h ↔
      J h ∧ (runAll cs).Always (exec step faults) J h' := by
  change J h ∧ Always _ J _ (exec step faults c h).2 ↔ _
  rw [hexec]
  rfl

end Shell

end Semantics
