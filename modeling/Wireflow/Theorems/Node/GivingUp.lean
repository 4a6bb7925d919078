/-
# Giving up on a peer

`onFailure` gives up when the first failure that it remembers is a minute old. It forgets that
failure when a dialer is closed, but not when a discovery succeeds. And it closes the state machine
from `probing`, the state in which discoveries fail, where the table has no way to `closed`.

`Watched` records beside the probe since when discoveries have been failing. Nothing in the probe
reads the record. `giving_up_iff` says that nothing else goes wrong: failed discoveries are followed
by restarts in all runs.
-/

import Wireflow.Theorems.Node.Epochs

namespace Wireflow.Agent

open Semantics Function

namespace Lifecycle

/-! ## Restarts after failures -/

/-- A discovery has failed, and the way leads to a restart. -/
def Main.retries : Main → Bool
  | .failing _ | .failed .dialerClosed | .failed .transient | .scheduling | .restarting | .replaced
  | .raised => true
  | _ => false

variable {ι : Type} {m m' : Lifecycle ι} {i j : ι}

/-- The next step on this way is made. A probe that `Close` has shut does not restart. -/
def Retried (i : ι) (m m' : Lifecycle ι) : Prop :=
  match (m.slot i).main with
  | .failing _ => ∃ failure, (m'.slot i).main = .failed failure
  | .failed .dialerClosed => (m'.slot i).main = .restarting
  | .failed .transient => (m'.slot i).main = .scheduling
  | .scheduling => m'.timers = (m.now + 10 * second) :: m.timers
  | .restarting => m.shut = false → (m'.slot i).main = .replaced
  | .replaced => (m'.slot i).main = .raised
  | .raised => (m'.slot i).main = .starting
  | _ => True

/-- A slot that waits for a restart is not free. -/
theorem not_atRest_of_retries (h : (m.slot i).main.retries) : ¬(m.slot i).AtRest := by
  intro hrest
  rw [hrest.1] at h
  cases h

theorem closed_transition_iff (fake : String) :
    (m.transition fake .closed).state = .closed ∧ (m.transition fake .closed).entry = false ↔
      .closed ∈ allowedTransitions m.state ∨ m.state = .closed ∧ m.entry = false := by
  by_cases hmem : .closed ∈ allowedTransitions m.state
  · simp [transition, entry, link, Discovery.transition, Discovery.onTransition, hmem]
  · simp [transition, entry, link, Discovery.transition, hmem]

variable [DecidableEq ι]

/-- Failed discoveries are followed by restarts: nothing leaves the way, and no timer is lost. -/
structure Retrying (cfg : Config) (m : Lifecycle ι) (a : Act ι) : Prop where
  goesOn : ∀ i, a = .main i .go → Retried i m (m.step cfg a)
  waits : ∀ i, (m.slot i).main.retries → a ≠ .main i .go →
    ((m.step cfg a).slot i).main = (m.slot i).main
  /-- A timer stays until it begins a restart. -/
  timers : ∀ due, m.timers.count due ≤ (m.step cfg a).timers.count due ∨
    ∃ i, a = .fire i due ∧ ((m.step cfg a).slot i).main = .restarting ∧
      m.timers.count due = (m.step cfg a).timers.count due + 1
  fires : ∀ i due, a = .fire i due → (m.slot i).AtRest → due ∈ m.timers → due ≤ m.now →
    ((m.step cfg a).slot i).main = .restarting

variable {cfg : Config} {a : Act ι}

variable {move : Move}

theorem slot_mainStep_of_ne (hne : j ≠ i) :
    (m.mainStep cfg i move).slot j = m.slot j := by
  apply mainStep_elim (motive := fun m' => m'.slot j = m.slot j) <;> intros <;>
    first
    | rfl
    | exact update_of_ne hne _ _

theorem count_timers_mainStep (due : ℕ) :
    m.timers.count due ≤ (m.mainStep cfg i move).timers.count due := by
  apply mainStep_elim (motive := fun m' => m.timers.count due ≤ m'.timers.count due) <;> intros <;>
    first
    | exact le_rfl
    | exact List.count_le_count_cons

/-- The goroutines of the dialers leave the rest of the slot where it is. -/
theorem main_dialStep {type : TransportType} :
    ((m.dialStep cfg i type move).slot j).main = (m.slot j).main := by
  have hset : ∀ {m' : Lifecycle ι} {s : Slot}, m'.slot = m.slot → s.main = (m.slot i).main →
      ((m'.setSlot i s).slot j).main = (m.slot j).main := by
    intro m' s hslot hmain
    rw [slot_setSlot, hslot]
    by_cases hji : j = i
    · rw [hji, update_self, hmain]
    · rw [update_of_ne hji]
  apply dialStep_elim (motive := fun m' => (m'.slot j).main = (m.slot j).main) <;> intros <;>
    first
    | rfl
    | exact hset rfl rfl

theorem timers_dialStep {type : TransportType} :
    (m.dialStep cfg i type move).timers = m.timers := by
  apply dialStep_elim (motive := fun m' => m'.timers = m.timers) <;> intros <;> rfl

theorem retried_mainStep : Retried i m (m.mainStep cfg i .go) := by
  unfold Retried
  split <;> rename_i hmain <;> simp only [mainStep, hmain]
  · exact ⟨_, by rw [slot_goto, update_self]⟩
  · rw [slot_goto, update_self]
    rfl
  · rw [slot_goto, update_self]
    rfl
  · rfl
  · intro hshut
    simp [hshut]
  · rw [slot_goto, update_self]
  · rw [slot_goto, update_self]

theorem mainStep_of_retries (h : (m.slot i).main.retries) (hmove : move ≠ .go) :
    m.mainStep cfg i move = m := by
  unfold Main.retries at h
  split at h <;> rename_i hmain
  case h_8 => cases h
  all_goals cases move <;> simp_all [mainStep]

theorem main_goto_of_retries (next : Main) (h : (m.slot j).main.retries)
    (hrest : (m.slot i).AtRest) : ((m.goto i next).slot j).main = (m.slot j).main := by
  have hne : j ≠ i := fun heq => not_atRest_of_retries h (heq ▸ hrest)
  rw [slot_goto, update_of_ne hne]

theorem main_step_of_retries (h : (m.slot i).main.retries) (ha : a ≠ .main i .go) :
    ((m.step cfg a).slot i).main = (m.slot i).main := by
  cases a with
  | call j c =>
    simp only [step]
    split_ifs with hrest
    · exact main_goto_of_retries _ h hrest
    · rfl
  | main j move =>
    by_cases hij : i = j
    · subst hij
      have hmove : move ≠ .go := fun hgo => ha (by rw [hgo])
      rw [step, mainStep_of_retries h hmove]
    · rw [step, slot_mainStep_of_ne hij]
  | dial j type move => exact main_dialStep
  | fire j due =>
    simp only [step]
    split_ifs with hfire
    · exact main_goto_of_retries _ h hfire.1
    · rfl
  | syn fails =>
    simp only [step]
    split <;> rfl
  | agentFails d | lateClose d =>
    simp only [step]
    split_ifs <;> rfl
  | send s | stop s | register | tick n => rfl

theorem retrying (cfg : Config) (m : Lifecycle ι) (a : Act ι) : Retrying cfg m a where
  goesOn i ha := by
    subst ha
    exact retried_mainStep
  waits i := main_step_of_retries
  timers due := by
    cases a with
    | main i move => exact .inl (count_timers_mainStep due)
    | dial i type move => exact .inl (by rw [step, timers_dialStep])
    | fire i due' =>
      simp only [step]
      split_ifs with hfire
      · by_cases hdue : due = due'
        · subst hdue
          refine .inr ⟨i, rfl, by rw [slot_goto, update_self], ?_⟩
          have hpos := List.count_pos_iff.mpr hfire.2.1
          change _ = (m.timers.erase due).count due + 1
          rw [List.count_erase_self]
          omega
        · refine .inl (le_of_eq ?_)
          exact (List.count_erase_of_ne hdue).symm
      · exact .inl le_rfl
    | call i c | agentFails d | lateClose d =>
      simp only [step]
      split_ifs <;> exact .inl le_rfl
    | syn fails =>
      simp only [step]
      split <;> exact .inl le_rfl
    | send s | stop s | register | tick n => exact .inl le_rfl
  fires i due ha hrest hmem hdue := by
    subst ha
    rw [step, if_pos ⟨hrest, hmem, hdue⟩, slot_goto, update_self]

/-! ## Frames -/

theorem firstFailureAt_step (cfg : Config) (m : Lifecycle ι) (a : Act ι) :
    (m.step cfg a).firstFailureAt = m.firstFailureAt ∨ ∃ i err, a = .main i .go ∧
      (m.slot i).main = .failing err ∧ (m.step cfg a).firstFailureAt = (m.onFailure err).2 := by
  cases a with
  | main i move =>
    apply mainStep_elim (motive := fun m' => m'.firstFailureAt = m.firstFailureAt ∨
      ∃ j err, Act.main i move = .main j .go ∧ (m.slot j).main = .failing err ∧
        m'.firstFailureAt = (m.onFailure err).2)
    case clock => exact fun err hmain hmove => .inr ⟨i, err, by rw [hmove], hmain, rfl⟩
    all_goals intros; exact .inl rfl
  | dial i type move =>
    refine .inl ?_
    apply dialStep_elim (motive := fun m' => m'.firstFailureAt = m.firstFailureAt) <;> intros <;>
      rfl
  | call i c | fire i due | agentFails d | lateClose d =>
    simp only [step]
    split_ifs <;> exact .inl rfl
  | syn fails =>
    simp only [step]
    split <;> exact .inl rfl
  | send s | stop s | register | tick n => exact .inl rfl

/-- Time does not run backwards. -/
theorem now_le_step (cfg : Config) (m : Lifecycle ι) (a : Act ι) :
    m.now ≤ (m.step cfg a).now := by
  cases a with
  | main i move =>
    apply mainStep_elim (motive := fun m' => m.now ≤ m'.now) <;> intros <;> exact le_rfl
  | dial i type move =>
    apply dialStep_elim (motive := fun m' => m.now ≤ m'.now) <;> intros <;> exact le_rfl
  | call i c | fire i due | agentFails d | lateClose d =>
    simp only [step]
    split_ifs <;> exact le_rfl
  | syn fails =>
    simp only [step]
    split <;> exact le_rfl
  | tick n => exact Nat.le_add_right ..
  | send s | stop s | register => exact le_rfl

end Lifecycle

open Lifecycle

/-! ## The record -/

/-- A probe, and since when its discoveries have been failing without a success. -/
structure Watched (ι : Type) where
  probe : Lifecycle ι := {}
  failingSince : Option ℕ := none

namespace Watched

variable {ι : Type}

/-- A discovery fails. -/
def fails (w : Watched ι) : Act ι → Option DialError
  | .main i .go =>
      match (w.probe.slot i).main with
      | .failing err => some err
      | _ => none
  | _ => none

/-- A discovery succeeds, perhaps late. -/
def succeeds (w : Watched ι) : Act ι → Bool
  | .main i .go =>
      match (w.probe.slot i).main with
      | .succeeding _ => true
      | _ => false
  | .dial i type .go =>
      match (w.probe.slot i).goroutine type with
      | .upgrading _ => true
      | _ => false
  | _ => false

/-- `onFailure` closes the state machine. -/
def givesUp (w : Watched ι) : Act ι → Bool
  | .main i .go => (w.probe.slot i).main = .failed .unreachable
  | _ => false

variable [DecidableEq ι]

def step (cfg : Config) (w : Watched ι) (a : Act ι) : Watched ι where
  probe := w.probe.step cfg a
  failingSince :=
    if (w.fails a).isSome then some (w.failingSince.getD w.probe.now)
    else if w.succeeds a then none
    else w.failingSince

/-- The promise about giving up, at one step. -/
structure Proper (cfg : Config) (w : Watched ι) (a : Act ι) : Prop
    extends Retrying cfg w.probe a where
  /-- The decision to give up comes after a minute of failures. -/
  patient : ∀ err, w.fails a = some err → (w.probe.onFailure err).1 = .unreachable →
    ∃ since, w.failingSince = some since ∧ since + 60 * second ≤ w.probe.now
  closes : w.givesUp a →
    (w.probe.step cfg a).state = .closed ∧ (w.probe.step cfg a).entry = false

/-- A discovery succeeds only while no failure is remembered. -/
def Unburdened (w : Watched ι) (a : Act ι) : Prop :=
  w.succeeds a → w.probe.firstFailureAt = none

/-- The probe gives up in a state that leads to `closed`, or after another discovery has given
up. -/
def Closable (w : Watched ι) (a : Act ι) : Prop :=
  w.givesUp a → .closed ∈ allowedTransitions w.probe.state ∨
    w.probe.state = .closed ∧ w.probe.entry = false

instance (w : Watched ι) (a : Act ι) : Decidable (w.Unburdened a) :=
  inferInstanceAs (Decidable (_ → _))

instance (w : Watched ι) (a : Act ι) : Decidable (w.Closable a) :=
  inferInstanceAs (Decidable (_ → _))

variable {cfg : Config} {w : Watched ι} {a : Act ι}

omit [DecidableEq ι] in
theorem fails_eq_some {err : DialError} :
    w.fails a = some err ↔ ∃ i, a = .main i .go ∧ (w.probe.slot i).main = .failing err := by
  unfold fails
  constructor
  · intro h
    split at h
    · next i =>
      split at h
      · next hmain => exact ⟨i, rfl, by rw [hmain, Option.some.inj h]⟩
      · cases h
    · cases h
  · rintro ⟨i, rfl, hmain⟩
    simp only [hmain]

theorem closes_iff : (w.givesUp a → (w.probe.step cfg a).state = .closed ∧
    (w.probe.step cfg a).entry = false) ↔ w.Closable a := by
  refine forall_congr' fun h => ?_
  rw [← closed_transition_iff cfg.fake]
  unfold givesUp at h
  split at h
  · rw [decide_eq_true_eq] at h
    simp only [Lifecycle.step, mainStep, h]
    rfl
  · cases h

/-- The failure that `onFailure` remembers is not older than the record. -/
structure Remembers (w : Watched ι) : Prop where
  since : ∀ t, w.probe.firstFailureAt = some t → ∃ since ≤ t, w.failingSince = some since
  past : ∀ since, w.failingSince = some since → since ≤ w.probe.now

omit [DecidableEq ι] in
theorem Remembers.getD_le (h : w.Remembers) :
    w.failingSince.getD w.probe.now ≤ w.probe.firstFailureAt.getD w.probe.now := by
  cases hfirst : w.probe.firstFailureAt with
  | some t =>
    obtain ⟨since, hle, hsince⟩ := h.since t hfirst
    rw [hsince]
    exact hle
  | none =>
    cases hsince : w.failingSince with
    | none => exact le_rfl
    | some since => exact h.past since hsince

theorem Remembers.step (h : w.Remembers) (hfree : w.Unburdened a) : (w.step cfg a).Remembers := by
  have hnow := now_le_step cfg w.probe a
  constructor
  · intro t ht
    by_cases hfails : (w.fails a).isSome
    · -- the failure is written down at the latest when `onFailure` sees it
      refine ⟨w.failingSince.getD w.probe.now, ?_, if_pos hfails⟩
      refine h.getD_le.trans ?_
      obtain hsame | ⟨i, err, -, -, hfirst⟩ := firstFailureAt_step cfg w.probe a
      · rw [← hsame, show (w.probe.step cfg a).firstFailureAt = some t from ht]
        exact le_rfl
      · cases err with
        | dialerClosed => cases hfirst.symm.trans ht
        | other => exact (Option.some.inj (hfirst.symm.trans ht)).le
    · have hsame := (firstFailureAt_step cfg w.probe a).resolve_right fun ⟨i, err, ha, hmain, _⟩ =>
        hfails (by rw [fails_eq_some.mpr ⟨i, ha, hmain⟩]; rfl)
      have hfirst : w.probe.firstFailureAt = some t := hsame.symm.trans ht
      have hsucceeds : ¬w.succeeds a := fun hs => by
        rw [hfree hs] at hfirst
        cases hfirst
      obtain ⟨since, hle, hsince⟩ := h.since t hfirst
      exact ⟨since, hle, (if_neg hfails).trans ((if_neg hsucceeds).trans hsince)⟩
  · intro since hsince
    refine le_trans ?_ hnow
    simp only [Watched.step] at hsince
    split_ifs at hsince
    · obtain rfl := Option.some.inj hsince
      cases hold : w.failingSince with
      | none => exact le_rfl
      | some old => exact h.past old hold
    · exact h.past since hsince

omit [DecidableEq ι] in
/-- `onFailure` gives up when the failure that it remembers is a minute old. -/
theorem Remembers.patient (h : w.Remembers) {err : DialError}
    (hfails : (w.probe.onFailure err).1 = .unreachable) :
    ∃ since, w.failingSince = some since ∧ since + 60 * second ≤ w.probe.now := by
  cases err with
  | dialerClosed => cases hfails
  | other =>
    simp only [onFailure] at hfails
    split_ifs at hfails with hlong
    cases hfirst : w.probe.firstFailureAt with
    | none =>
      rw [hfirst, Option.getD_none, Nat.sub_self] at hlong
      exact absurd hlong (by decide)
    | some t =>
      obtain ⟨since, hle, hsince⟩ := h.since t hfirst
      rw [hfirst, Option.getD_some] at hlong
      refine ⟨since, hsince, ?_⟩
      have hpos : 0 < 60 * second := by decide
      omega

/-- **Giving up.** While discoveries succeed only when no failure is remembered, a probe keeps its
promise if and only if it gives up in states that lead to `closed`. -/
theorem giving_up_iff (cfg : Config) (acts : List (Act ι))
    (hfree : AlongSteps (step cfg) Unburdened {} acts) :
    AlongSteps (step cfg) (Proper cfg) {} acts ↔ AlongSteps (step cfg) Closable {} acts := by
  refine AlongSteps.iff_of_invariant (I := Remembers) (fun w a h _ => ?_)
    (fun w a h hfree _ => h.step hfree) ⟨nofun, nofun⟩ hfree
  refine ⟨fun hproper => closes_iff.mp hproper.closes, fun hclosable => ?_⟩
  exact
    { retrying cfg w.probe a with
      patient := fun err _ => h.patient
      closes := closes_iff.mpr hclosable }

namespace Failures

open Act

/-- Without the relay, on the side that sends handshakes. -/
def calls : Config := { enableWrrp := false, initiator := true, fake := "240.0.0.1:1" }

/-- The goroutine of ICE reports an error, and `onFailure` looks at the clock. -/
def fails (i : Fin 2) (err : DialError) : List (Act (Fin 2)) :=
  [.dial i .ice (.dialed (.error err)), .main i .err] ++ mains i 3

/-- A discovery fails, and another one begins. -/
def restarts (wait : ℕ) : List (Act (Fin 2)) :=
  .call 0 .start :: mains 0 3 ++ dials 0 .ice 3 ++ fails 0 .other ++ mains 0 2 ++
    [.tick (wait * second), .fire 0 (10 * second)] ++ mains 0 6 ++ dials 0 .ice 3

/-- It fails as well, after the key of the remote was registered. -/
def failsAgain : List (Act (Fin 2)) := restarts 70 ++ .register :: fails 0 .other

/-- It connects, and a minute later a third one fails. -/
def failsMuchLater : List (Act (Fin 2)) :=
  restarts 10 ++ .dial 0 .ice (.dialed (.ok "192.0.2.1:51820")) :: dials 0 .ice 2 ++
    .main 0 .result :: mains 0 4 ++ [.tick (60 * second), .call 0 .start] ++ mains 0 3 ++
    dials 0 .ice 3 ++ fails 0 .other

/-- Two discoveries of one epoch fail together. One of them changes the state to `failed` before the
other one gives up. -/
def failsTogether : List (Act (Fin 2)) :=
  .call 0 .start :: mains 0 3 ++ dials 0 .ice 3 ++ fails 0 .other ++ mains 0 2 ++
    [.tick (70 * second), .call 0 .restart, .call 1 .restart] ++ mains 0 2 ++ mains 1 6 ++
    mains 0 4 ++ dials 0 .ice 3 ++ dials 1 .ice 3 ++ .agentFails 2 :: fails 1 .other ++
    fails 0 .dialerClosed ++ mains 0 1 ++ mains 1 1

def after (acts : List (Act (Fin 2))) : Watched (Fin 2) := acts.foldl (step calls) {}

end Failures

theorem gives_up_together :
    AlongSteps (step Failures.calls) (Proper Failures.calls) {} Failures.failsTogether ∧
      (Failures.after Failures.failsTogether).probe.state = .closed :=
  ⟨(giving_up_iff Failures.calls Failures.failsTogether (by decide)).mpr (by decide), by decide⟩

/-- After a minute of failures the probe gives up, but stays in `probing`, and its entry stays in
the device. And it gives up on a peer to which it was connected, at the first failure. -/
theorem gives_up_wrongly :
    ((Failures.after Failures.failsAgain).givesUp (.main 0 .go) ∧
      (Failures.after (Failures.failsAgain ++ [.main 0 .go])).probe.state = .probing ∧
      (Failures.after (Failures.failsAgain ++ [.main 0 .go])).probe.entry = true) ∧
    ((Failures.after Failures.failsMuchLater).givesUp (.main 0 .go) ∧
      (Failures.after Failures.failsMuchLater).failingSince = some (70 * second) ∧
      (Failures.after Failures.failsMuchLater).probe.now = 70 * second) := by
  decide

end Watched

end Wireflow.Agent
