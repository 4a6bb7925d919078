/-
# Transition histories

Any number of calls of `Transition` run at the same time, on a machine with a fixed list of
callbacks. Since a call keeps the lock until it returns, every callback sees a path of allowed
transitions, with one pair for each call that succeeds.
-/

import Wireflow.Agent.Lifecycle

namespace Wireflow.Agent

open Function

def PeerState.string : PeerState → String
  | .created => "created"
  | .probing => "probing"
  | .iceReady => "ice-ready"
  | .wrrpReady => "wrrp-ready"
  | .failed => "failed"
  | .closed => "closed"

/-- Where a call of `Transition` is while it holds the lock. -/
inductive Section
  | locked
  /-- The state has been set, and so many callbacks have returned. -/
  | firing (source : PeerState) (fired : ℕ)

/-- `StateMachine` with `n` callbacks, and the calls of `Transition`. -/
structure StateMachine (ι : Type) (n : ℕ) where
  current : PeerState
  /-- The holder of `mu`. -/
  mu : Option (ι × Section) := none
  returned : ι → Option (Except String Unit) := fun _ => none
  /-- The calls of each callback, each with the call of `Transition` that made it. -/
  seen : Fin n → List (ι × PeerState × PeerState) := fun _ => []

namespace StateMachine

variable {ι : Type} [DecidableEq ι] {n : ℕ}

/-- The deferred `Unlock`. -/
def finish (i : ι) (result : Except String Unit) (m : StateMachine ι n) : StateMachine ι n :=
  { m with mu := none, returned := update m.returned i (some result) }

/-- The next step of the call `i` of `Transition`, which waits while another has the lock. -/
def step (target : ι → PeerState) (m : StateMachine ι n) (i : ι) : StateMachine ι n :=
  match m.mu with
  | none => if m.returned i = none then { m with mu := some (i, .locked) } else m
  | some (holder, stage) =>
      if holder = i then
        match stage with
        | .locked =>
            if target i ∈ allowedTransitions m.current then
              { m with current := target i, mu := some (i, .firing m.current 0) }
            else m.finish i (.error
              ("invalid transition " ++ m.current.string ++ " → " ++ (target i).string))
        | .firing source fired =>
            if h : fired < n then
              { m with
                mu := some (i, .firing source (fired + 1))
                seen := update m.seen ⟨fired, h⟩ (m.seen ⟨fired, h⟩ ++ [(i, source, target i)]) }
            else m.finish i (.ok ())
      else m

/-! ## Paths -/

/-- A path of allowed transitions from one state to another. -/
def Path : PeerState → List (PeerState × PeerState) → PeerState → Prop
  | s, [], last => s = last
  | s, (source, target) :: rest, last =>
      source = s ∧ target ∈ allowedTransitions source ∧ Path target rest last

variable {s source last : PeerState} {before after : List (PeerState × PeerState)}

theorem Path.snoc {target : PeerState} (h : Path s before last)
    (hallowed : target ∈ allowedTransitions last) : Path s (before ++ [(last, target)]) target := by
  induction before generalizing s with
  | nil =>
    subst h
    exact ⟨rfl, hallowed, rfl⟩
  | cons pair rest ih => exact ⟨h.1, h.2.1, ih h.2.2⟩

theorem Path.after_closed (h : Path s (before ++ (source, .closed) :: after) last) :
    after = [] := by
  induction before generalizing s with
  | nil =>
    cases after with
    | nil => rfl
    | cons pair rest =>
      obtain ⟨-, -, hclosed, hallowed, -⟩ := h
      rw [hclosed] at hallowed
      cases hallowed
  | cons pair rest ih => exact ih h.2.2

/-! ## What the calls keep together -/

/-- The state up to which a callback has followed the machine. -/
def known (m : StateMachine ι n) (c : Fin n) : PeerState :=
  match m.mu with
  | some (_, .firing source fired) => if c < fired then m.current else source
  | _ => m.current

/-- How often a call of `Transition` has called a callback. -/
def told (m : StateMachine ι n) (c : Fin n) (i : ι) : ℕ :=
  match m.returned i with
  | some (.ok _) => 1
  | some (.error _) => 0
  | none =>
      match m.mu with
      | some (holder, .firing _ fired) => if holder = i ∧ c < fired then 1 else 0
      | _ => 0

/-- What the holder of the lock has done so far. -/
def Held (target : ι → PeerState) (m : StateMachine ι n) : Prop :=
  match m.mu with
  | none => True
  | some (i, .locked) => m.returned i = none
  | some (i, .firing source _) =>
      m.returned i = none ∧ target i = m.current ∧ m.current ∈ allowedTransitions source

structure Synchronised (target : ι → PeerState) (initial : PeerState) (c : Fin n)
    (m : StateMachine ι n) : Prop where
  path : Path initial ((m.seen c).map Prod.snd) (m.known c)
  count : ∀ i, (m.seen c).countP (·.1 = i) = m.told c i
  held : m.Held target

variable {target : ι → PeerState} {initial : PeerState} {c : Fin n} {m : StateMachine ι n}

theorem Synchronised.step (h : Synchronised target initial c m) (i : ι) :
    Synchronised target initial c (m.step target i) := by
  obtain ⟨current, mu, returned, seen⟩ := m
  obtain ⟨hpath, hcount, hheld⟩ := h
  cases mu with
  | none =>
    dsimp only [StateMachine.step]
    split_ifs with hnone
    · exact ⟨hpath, hcount, hnone⟩
    · exact ⟨hpath, hcount, hheld⟩
  | some entry =>
    obtain ⟨holder, stage⟩ := entry
    by_cases hother : holder = i
    · subst hother
      simp only [StateMachine.step, if_true]
      cases stage with
      | locked =>
        dsimp only
        split_ifs with hallowed
        · exact ⟨hpath, fun j => by simpa [told] using hcount j, hheld, rfl, hallowed⟩
        · refine ⟨hpath, fun j => (hcount j).trans ?_, trivial⟩
          by_cases hj : j = holder <;> simp_all [told, finish, Held]
      | firing source fired =>
        obtain ⟨hnone, htarget, hallowed⟩ := hheld
        dsimp only at hnone htarget hallowed ⊢
        split_ifs with hfired
        · by_cases hc : (c : ℕ) = fired
          · subst hc
            refine ⟨?_, fun j => ?_, hnone, htarget, hallowed⟩
            · have hsource : Path initial ((seen c).map Prod.snd) source := by
                simpa [known] using hpath
              simpa [known, htarget] using hsource.snoc hallowed
            · have hj := hcount j
              by_cases hholder : holder = j
              · simpa [told, hnone, ← hholder] using hj
              · simpa [told, hholder] using hj
          · have hnext : c < fired + 1 ↔ c < fired := by omega
            have hne : c ≠ ⟨fired, hfired⟩ := Fin.ne_of_val_ne hc
            refine ⟨?_, fun j => ?_, hnone, htarget, hallowed⟩
            · simpa [known, hnext, hne] using hpath
            · simpa [told, hnext, hne] using hcount j
        · have hlast : c < fired := by omega
          refine ⟨?_, fun j => (hcount j).trans ?_, trivial⟩
          · simpa [known, finish, hlast] using hpath
          · by_cases hj : j = holder
            · simp [told, finish, hj, hnone, hlast]
            · simp [told, finish, hj, Ne.symm hj]
    · simp only [StateMachine.step, hother, if_false]
      exact ⟨hpath, hcount, hheld⟩

/-- What a callback has seen fits what the calls have returned. -/
structure LegalHistory (initial : PeerState) (c : Fin n) (m : StateMachine ι n) : Prop where
  path : ∃ last, Path initial ((m.seen c).map Prod.snd) last
  once : ∀ i, m.returned i = some (.ok ()) → (m.seen c).countP (·.1 = i) = 1
  never : ∀ i err, m.returned i = some (.error err) → (m.seen c).countP (·.1 = i) = 0
  closed : ∀ before source after,
    (m.seen c).map Prod.snd = before ++ (source, .closed) :: after → after = []

/-- **Every callback sees a legal history**, however the calls are interleaved. -/
theorem legalHistory_run (target : ι → PeerState) (initial : PeerState) (schedule : List ι)
    (c : Fin n) :
    LegalHistory initial c (schedule.foldl (StateMachine.step target) { current := initial }) := by
  have hrun : Synchronised target initial c
      (schedule.foldl (StateMachine.step target) { current := initial }) :=
    List.foldlRecOn schedule _ ⟨rfl, fun _ => rfl, trivial⟩ fun _ h i _ => h.step i
  refine ⟨⟨_, hrun.path⟩, fun i hok => ?_, fun i err herr => ?_, fun before source after heq => ?_⟩
  · rw [hrun.count, told, hok]
  · rw [hrun.count, told, herr]
  · exact Path.after_closed (heq ▸ hrun.path)

end StateMachine

namespace Lifecycle

variable {ι : Type} [DecidableEq ι] {cfg : Config} {m : Lifecycle ι} {a : Act ι}

/-- The state was reached by allowed transitions. -/
def Legal (m : Lifecycle ι) : Prop := ∃ history, StateMachine.Path .created history m.state

theorem Legal.step (h : m.Legal) : (m.step cfg a).Legal := by
  have htransition : ∀ target, (m.transition cfg.fake target).Legal := by
    intro target
    rw [Legal, state_transition]
    split_ifs with hallowed
    · exact ⟨_, h.choose_spec.snoc hallowed⟩
    · exact h
  cases a with
  | main i move => apply mainStep_elim <;> intros <;> first | exact h | exact htransition _
  | dial i type move => apply dialStep_elim <;> intros <;> first | exact h | exact htransition _
  | _ =>
    rw [Lifecycle.step]
    repeat' split
    all_goals exact h

end Lifecycle

end Wireflow.Agent
