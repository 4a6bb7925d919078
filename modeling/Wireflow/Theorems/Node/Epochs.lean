/-
# Epochs

A restart raises the epoch, so that what an earlier discovery finds is dropped. The epoch is only
compared in one place, after `discover` has returned; a late upgrade does not look at it, a restart
may come between the comparison and what follows it, raising the epoch and taking the flag are two
steps, and the dialers that a restart replaces are not closed.

`disciplined_along` says that the discipline of epochs is kept in all runs in which none of this
matters, for any number of discoveries, restarts and timers. `epoch_ignored` has runs for the rest.
-/

import Mathlib.Data.Fintype.Basic
import Wireflow.Agent.Lifecycle
import Wireflow.Semantics.Steps

namespace Wireflow.Agent.Lifecycle

open Semantics Function Lifecycle Slot

variable {ι : Type} {cfg : Config} {m m' : Lifecycle ι} {a : Act ι} {i : ι}

/-! ## The notions -/

/-- The slot whose discovery takes a step. -/
def Act.actor : Act ι → Option ι
  | .main i _ | .dial i _ _ => some i
  | _ => none

/-- A discovery runs: `Start` has read the epoch, and the flag is not yet taken away. -/
def Main.runs : Main → Bool
  | .probing | .racing _ | .grace _ | .overtime _ | .returned _ | .checked _ => true
  | _ => false

/-- The goroutine of `Prepare` is there and sends handshakes, which a closed ICE dialer does not. -/
def Emits (m : Lifecycle ι) (s : Sender) : Prop :=
  s ∈ m.senders ∧ (s.type = .ice → (m.ice s.dialer).closed = false)

instance (m : Lifecycle ι) (s : Sender) : Decidable (Emits m s) :=
  inferInstanceAs (Decidable (_ ∧ _))

/-- At most one discovery of an epoch runs. -/
def OnePerEpoch (m : Lifecycle ι) : Prop :=
  ∀ j k, (m.slot j).main.runs → (m.slot k).main.runs → (m.slot j).epoch = (m.slot k).epoch → j = k

/-- The discipline of epochs, at one step. -/
structure Disciplined [DecidableEq ι] (cfg : Config) (m : Lifecycle ι) (a : Act ι) : Prop where
  /-- Only a discovery of the current epoch changes the transport or the state. -/
  changes : (m.step cfg a).currentTransport ≠ m.currentTransport ∨
    (m.step cfg a).state ≠ m.state → ∃ i, a.actor = some i ∧ (m.slot i).epoch = m.epoch
  single : OnePerEpoch (m.step cfg a)
  /-- No goroutine of an earlier epoch sends handshakes. -/
  sends : ∀ s, a = .send s → Emits m s → s.epoch = m.epoch

/-- The next steps change the state or the transport, and are not preceded by a look at the
epoch. -/
def Main.commits : Main → Bool
  | .probing | .checked _ | .succeeding _ | .assigned _ | .failing _ | .failed _ => true
  | _ => false

/-- So do those of a late upgrade. -/
def Dialing.commits : Dialing → Bool
  | .upgrading _ | .upgraded _ => true
  | _ => false

def Slot.committed (s : Slot) : Bool :=
  s.main.commits || (s.goroutine .ice).commits || (s.goroutine .wrrp).commits

/-- The epoch may be raised: no discovery is committed, none still runs from the time when the
counter had its next value, and no goroutine sends handshakes. -/
structure MayRaise (m : Lifecycle ι) : Prop where
  committed : ∀ j, (m.slot j).committed = false
  fresh : ∀ j, (m.slot j).main.runs → (m.slot j).epoch ≠ m.epoch + 1
  silent : ∀ s ∈ m.senders, ¬Emits m s

/-- The flag may be taken away: it is not held by a discovery of the current epoch. -/
def MayRelease (m : Lifecycle ι) : Prop :=
  ∀ j, (m.slot j).main ≠ .started ∧ ((m.slot j).main.runs → (m.slot j).epoch ≠ m.epoch)

/-- The goroutine of a dialer may go on: handshakes are prepared, and late upgrades made, in the
current epoch only. -/
def MayDial (cfg : Config) (i : ι) (type : TransportType) (m : Lifecycle ι) : Prop :=
  match (m.slot i).goroutine type with
  | .prepares _ => type = .wrrp ∨ cfg.initiator → (m.slot i).epoch = m.epoch
  | .loading _ => (m.slot i).wrrpWon → (m.slot i).epoch = m.epoch
  | _ => True

/-- Restarts are orderly. -/
def Orderly (cfg : Config) (m : Lifecycle ι) : Act ι → Prop
  | .main i _ =>
      ((m.slot i).main = .replaced → MayRaise m) ∧ ((m.slot i).main = .raised → MayRelease m)
  | .dial i type _ => MayDial cfg i type m
  | _ => True

/-! ## The invariant -/

/-- The discovery of a slot holds the flag in an epoch. -/
def Slot.Holds (epoch : UInt64) (s : Slot) : Prop :=
  s.main = .started ∨ s.main.runs ∧ s.epoch = epoch

/-- What orderly restarts keep. -/
structure Tidy (m : Lifecycle ι) : Prop where
  committed : ∀ j, (m.slot j).committed → (m.slot j).epoch = m.epoch
  flag : ∀ j, (m.slot j).Holds m.epoch → m.running = true
  holder : ∀ j k, (m.slot j).Holds m.epoch → (m.slot k).Holds m.epoch → j = k
  single : OnePerEpoch m
  senders : ∀ s, Emits m s → s.epoch = m.epoch

/-- The flag may be given or taken as long as nobody counts on it. -/
theorem Tidy.setRunning (h : Tidy m) (b : Bool) (hfree : ∀ j, ¬(m.slot j).Holds m.epoch) :
    Tidy { m with running := b } :=
  { h with flag := fun j hj => absurd hj (hfree j) }

/-- Closing a dialer only silences goroutines. -/
theorem Tidy.onIce (h : Tidy m) {f : IceDialer → IceDialer} (d : ℕ)
    (hf : ∀ x, x.closed = true → (f x).closed = true) : Tidy (m.onIce f d) := by
  refine { h with senders := fun s hs => h.senders s ⟨hs.1, fun htype => ?_⟩ }
  have hclosed := hs.2 htype
  by_contra hne
  rw [Bool.not_eq_false] at hne
  by_cases hd : s.dialer = d
  · rw [ice_onIce, hd, update_self, hf _ (hd ▸ hne)] at hclosed
    cases hclosed
  · rw [ice_onIce, update_of_ne hd, hne] at hclosed
    cases hclosed

theorem tidy_initial : Tidy ({} : Lifecycle ι) where
  committed j hj := rfl
  flag j hj := by simp [Slot.Holds, Main.runs] at hj
  holder j k hj := by simp [Slot.Holds, Main.runs] at hj
  single j k hj := by simp [Main.runs] at hj
  senders s hs := absurd hs.1 (List.not_mem_nil)

variable {type : TransportType}

/-- `Prepare` in the current epoch. -/
theorem Tidy.prepare (h : Tidy m) (d : ℕ)
    (hepoch : type = .wrrp ∨ cfg.initiator → (m.slot i).epoch = m.epoch) :
    Tidy (m.prepare cfg type d (m.slot i).epoch) := by
  refine { h with senders := fun s hs => ?_ }
  obtain ⟨hmem, hclosed⟩ := hs
  rw [closed_prepare] at hclosed
  simp only [Lifecycle.prepare] at hmem ⊢
  split_ifs at hmem with hsends
  · obtain rfl | hmem := List.mem_cons.mp hmem
    · exact hepoch hsends
    · exact h.senders s ⟨(List.mem_filter.mp hmem).1, hclosed⟩
  · exact h.senders s ⟨hmem, hclosed⟩

variable [DecidableEq ι]

variable {s : Slot}

/-- A slot goes on. If it holds the flag after that, nobody else does, and if a discovery runs in it
then no other one of its epoch. -/
theorem Tidy.update (h : Tidy m) (hcommitted : s.committed → s.epoch = m.epoch)
    (hholds : s.Holds m.epoch → m.running = true ∧ ∀ j, j ≠ i → ¬(m.slot j).Holds m.epoch)
    (hruns : s.main.runs → ∀ j, j ≠ i → (m.slot j).main.runs → (m.slot j).epoch ≠ s.epoch) :
    Tidy (m.setSlot i s) := by
  refine ⟨?_, ?_, ?_, ?_, h.senders⟩
  · exact (forall_update_iff m.slot fun _ s' => s'.committed → s'.epoch = m.epoch).mpr
      ⟨hcommitted, fun j _ => h.committed j⟩
  · exact (forall_update_iff m.slot fun _ s' => s'.Holds m.epoch → m.running = true).mpr
      ⟨fun hs => (hholds hs).1, fun j _ => h.flag j⟩
  · intro j k hj hk
    rw [slot_setSlot] at hj hk
    by_cases hji : j = i <;> by_cases hki : k = i
    · rw [hji, hki]
    · rw [hji, update_self] at hj
      rw [update_of_ne hki] at hk
      exact absurd hk ((hholds hj).2 k hki)
    · rw [update_of_ne hji] at hj
      rw [hki, update_self] at hk
      exact absurd hj ((hholds hk).2 j hji)
    · rw [update_of_ne hji] at hj
      rw [update_of_ne hki] at hk
      exact h.holder j k hj hk
  · intro j k hj hk heq
    rw [slot_setSlot] at hj hk heq
    by_cases hji : j = i <;> by_cases hki : k = i
    · rw [hji, hki]
    · rw [hji, update_self] at hj heq
      rw [update_of_ne hki] at hk heq
      exact absurd heq.symm (hruns hj k hki hk)
    · rw [update_of_ne hji] at hj heq
      rw [hki, update_self] at hk heq
      exact absurd heq (hruns hk j hji hj)
    · rw [update_of_ne hji] at hj heq
      rw [update_of_ne hki] at hk heq
      exact h.single j k hj hk heq

/-- A slot goes on without taking the flag or beginning a discovery. -/
theorem Tidy.setSlot (h : Tidy m) (hepoch : s.epoch = (m.slot i).epoch)
    (hcommitted : s.committed → (m.slot i).epoch = m.epoch)
    (hstarted : s.main = .started → (m.slot i).main = .started)
    (hruns : s.main.runs → (m.slot i).main.runs) : Tidy (m.setSlot i s) := by
  have hholds : s.Holds m.epoch → (m.slot i).Holds m.epoch :=
    Or.imp hstarted (And.imp hruns hepoch.symm.trans)
  refine h.update (fun hs => hepoch.trans (hcommitted hs))
    (fun hs => ⟨h.flag i (hholds hs), fun j hne hj => hne (h.holder j i hj (hholds hs))⟩)
    fun hs j hne hj heq => hne (h.single j i hj (hruns hs) (heq.trans hepoch))

theorem Slot.committed_iff :
    s.committed ↔ s.main.commits ∨ ∃ type, (s.goroutine type).commits := by
  rw [committed, Bool.or_eq_true, Bool.or_eq_true, or_assoc]
  refine or_congr_right ⟨Or.rec (fun h => ⟨_, h⟩) fun h => ⟨_, h⟩, ?_⟩
  rintro ⟨⟨⟩, h⟩
  exacts [.inl h, .inr h]

/-- What a slot is committed to after its main goroutine has gone on. -/
theorem Slot.committed_cases {s s' : Slot} (hgoroutine : s'.goroutine = s.goroutine)
    (h : s'.committed) : s'.main.commits ∨ s.committed := by
  rw [committed_iff, hgoroutine] at h
  exact h.imp id fun h => committed_iff.mpr (.inr h)

theorem Tidy.goto (h : Tidy m) {next : Main}
    (hcommits : next.commits → (m.slot i).epoch = m.epoch) (hstarted : next ≠ .started)
    (hruns : next.runs → (m.slot i).main.runs) : Tidy (m.goto i next) := by
  refine h.setSlot rfl (fun hs => ?_) (fun hs => absurd hs hstarted) hruns
  refine (committed_cases ?_ hs).elim hcommits (h.committed i)
  rfl

/-- `Start` takes the flag. -/
theorem Tidy.take (h : Tidy m) (hmain : (m.slot i).main = .starting)
    (hrunning : m.running = false) : Tidy ({ m with running := true }.goto i .started) := by
  have hfree : ∀ j, ¬(m.slot j).Holds m.epoch := fun j hj =>
    absurd (h.flag j hj) (by rw [hrunning]; decide)
  refine (h.setRunning true hfree).update (fun hs => h.committed i ?_)
    (fun _ => ⟨rfl, fun j _ => hfree j⟩) nofun
  simpa [Slot.committed, Main.commits, hmain] using hs

/-- `Start` reads the epoch. -/
theorem Tidy.read (h : Tidy m) (hmain : (m.slot i).main = .started) :
    Tidy (m.setSlot i { m.slot i with main := .probing, epoch := m.epoch }) := by
  have hholds : (m.slot i).Holds m.epoch := .inl hmain
  refine h.update (fun _ => rfl)
    (fun _ => ⟨h.flag i hholds, fun j hne hj => hne (h.holder j i hj hholds)⟩) ?_
  intro _ j hne hj heq
  exact hne (h.holder j i (.inr ⟨hj, heq⟩) hholds)

/-- `restart` raises the epoch. -/
theorem Tidy.raise (h : Tidy m) (hmay : MayRaise m) :
    Tidy ({ m with epoch := m.epoch + 1 }.goto i .raised) := by
  -- in the next epoch only those hold the flag that have not read the epoch
  have hstarted : ∀ j, (m.slot j).Holds (m.epoch + 1) → (m.slot j).Holds m.epoch := fun j hj =>
    .inl (hj.resolve_right fun hruns => hmay.fresh j hruns.1 hruns.2)
  have hraised : Tidy { m with epoch := m.epoch + 1 } :=
    { h with
      committed := fun j hj => absurd hj (by rw [hmay.committed j]; decide)
      flag := fun j hj => h.flag j (hstarted j hj)
      holder := fun j k hj hk => h.holder j k (hstarted j hj) (hstarted k hk)
      senders := fun s hs => absurd hs (hmay.silent s hs.1) }
  exact hraised.goto nofun nofun nofun

/-- `restart` takes the flag away. -/
theorem Tidy.release (h : Tidy m) (hmay : MayRelease m) :
    Tidy ({ m with running := false }.goto i .starting) := by
  have hfree : ∀ j, ¬(m.slot j).Holds m.epoch := by
    rintro j (hj | ⟨hj, heq⟩)
    · exact (hmay j).1 hj
    · exact (hmay j).2 hj heq
  exact (h.setRunning false hfree).goto nofun nofun nofun

/-- The goroutine of `Start` takes its own flag away. -/
theorem Tidy.yield (h : Tidy m) {result : Except DialError Transport}
    (hmain : (m.slot i).main = .checked result) :
    Tidy ({ m with running := false }.goto i (afterDiscover result)) := by
  have hcommitted : (m.slot i).committed := by simp [Slot.committed, hmain, Main.commits]
  have hholds : (m.slot i).Holds m.epoch :=
    .inr ⟨by rw [hmain]; rfl, h.committed i hcommitted⟩
  -- first the slot goes on, then nobody holds the flag
  have hgoto : Tidy (m.goto i (afterDiscover result)) := by
    refine h.goto (fun _ => h.committed i hcommitted) ?_ ?_ <;>
      cases result <;> simp [afterDiscover, Main.runs]
  refine hgoto.setRunning false fun j hj => ?_
  rw [slot_goto] at hj
  by_cases hji : j = i
  · rw [hji, update_self] at hj
    cases result <;> simp [Slot.Holds, afterDiscover, Main.runs] at hj
  · rw [update_of_ne hji] at hj
    exact hji (h.holder j i hj hholds)

/-! ## Steps -/

theorem closed_close (x : IceDialer) (h : x.closed = true) : x.close.closed = true := by
  rw [IceDialer.close, if_pos h, h]

theorem Tidy.mainStep {move : Move} (h : Tidy m) (horderly : Orderly cfg m (.main i move)) :
    Tidy (m.mainStep cfg i move) := by
  -- most steps end outside of `discover`
  have hgoto : ∀ {m : Lifecycle ι} {next : Main}, Tidy m → next.commits = false →
      next ≠ .started → next.runs = false → Tidy (m.goto i next) := by
    intro m next h hcommits hstarted hruns
    exact h.goto (by rw [hcommits]; nofun) hstarted (by rw [hruns]; nofun)
  -- within `discover` the slot keeps its epoch
  have hset : ∀ {s : Slot}, s.epoch = (m.slot i).epoch →
      (s.main.commits → (m.slot i).epoch = m.epoch) → s.goroutine = (m.slot i).goroutine →
      s.main ≠ .started → (m.slot i).main.runs → Tidy (m.setSlot i s) := by
    intro s hepoch hcommits hgoroutine hstarted hruns
    exact h.setSlot hepoch
      (fun hs => (committed_cases hgoroutine hs).elim hcommits (h.committed i))
      (fun hs => absurd hs hstarted) fun _ => hruns
  have hcommitted : ∀ {main : Main}, (m.slot i).main = main → main.commits →
      (m.slot i).epoch = m.epoch := fun hmain hcommits =>
    h.committed i (committed_iff.mpr (.inl (hmain ▸ hcommits)))
  apply mainStep_elim
  case stay => exact h
  case drop | replace | busy | stale | succeed | schedule | shut | closeNone =>
    intros
    refine hgoto ?_ rfl nofun rfl
    exact { h with }
  case raise => exact fun hmain => h.raise (horderly.1 hmain)
  case release => exact fun hmain => h.release (horderly.2 hmain)
  case take => exact fun hmain hrunning => h.take hmain hrunning
  case read => exact fun hmain => h.read hmain
  case spawn =>
    intro hmain
    refine .setSlot ?_ ?_ (fun _ => ?_) ?_ fun _ => ?_
    · exact { h with }
    · rfl
    · exact hcommitted hmain rfl
    · nofun
    · exact congrArg Main.runs hmain
  case receive =>
    intro n t rest hmain _
    refine hset rfl ?_ rfl ?_ (by rw [hmain]; rfl) <;>
      simp only [afterResult] <;> split_ifs <;> nofun
  case receiveErr =>
    intro n err rest hmain _
    refine hset rfl ?_ rfl ?_ (by rw [hmain]; rfl) <;>
      simp only [afterErr] <;> split_ifs <;> nofun
  case receiveLate | expire | win =>
    intros
    exact hset rfl nofun rfl nofun (by rw [‹(m.slot i).main = _›]; rfl)
  case check =>
    intro result hmain hepoch
    exact hset rfl (fun _ => hepoch.symm) rfl nofun (by rw [hmain]; rfl)
  case yield => exact fun result hmain => h.yield hmain
  case assign | clock =>
    intros
    refine .goto ?_ (fun _ => hcommitted ‹_› rfl) ?_ ?_
    · exact { h with }
    · nofun
    · nofun
  case fail =>
    intro failure hmain _
    cases failure <;> refine hgoto ?_ rfl nofun rfl <;> exact { h with }
  case close => exact fun d _ => hgoto (h.onIce d closed_close) rfl nofun rfl

/-- The goroutine of a dialer goes on. -/
theorem Tidy.advance (h : Tidy m) {g : Dialing}
    (hmain : s.main = (m.slot i).main) (hepoch : s.epoch = (m.slot i).epoch)
    (hgoroutine : s.goroutine = Function.update (m.slot i).goroutine type g)
    (hcommits : g.commits → (m.slot i).epoch = m.epoch) : Tidy (m.setSlot i s) := by
  refine h.setSlot hepoch (fun hs => ?_) (fun hs => hmain ▸ hs) fun hs => hmain ▸ hs
  rw [committed_iff, hmain, hgoroutine] at hs
  obtain hs | ⟨other, hs⟩ := hs
  · exact h.committed i (committed_iff.mpr (.inl hs))
  · by_cases hother : other = type
    · rw [hother, update_self] at hs
      exact hcommits hs
    · rw [update_of_ne hother] at hs
      exact h.committed i (committed_iff.mpr (.inr ⟨other, hs⟩))

theorem Tidy.dialStep {move : Move} (h : Tidy m) (horderly : Orderly cfg m (.dial i type move)) :
    Tidy (m.dialStep cfg i type move) := by
  apply dialStep_elim
  case stay => exact h
  case look | lookAgain => exact fun d _ _ => h.advance rfl rfl rfl nofun
  case prepare =>
    intro d hg
    have hepoch : type = .wrrp ∨ cfg.initiator → (m.slot i).epoch = m.epoch := by
      simpa [Orderly, MayDial, hg] using horderly
    exact (h.prepare d hepoch).advance rfl rfl rfl nofun
  case fail => exact fun d err _ => h.advance rfl rfl rfl nofun
  case connect =>
    intro d remoteAddr _ _
    refine .advance (m := m.connect type d) ?_ rfl rfl rfl nofun
    exact { h with }
  case send =>
    intro t _
    refine h.advance rfl rfl rfl ?_
    cases type <;> nofun
  case load =>
    intro t hg _
    refine h.advance rfl rfl rfl fun hcommits => ?_
    have hepoch : (m.slot i).wrrpWon → (m.slot i).epoch = m.epoch := by
      simpa [Orderly, MayDial, hg] using horderly
    split_ifs at hcommits with hwon
    · exact hepoch hwon
    · cases hcommits
  case assign =>
    intro t hg _
    refine .advance (m := { m with currentTransport := some t }) { h with } rfl rfl rfl fun _ => ?_
    exact h.committed i (committed_iff.mpr (.inr ⟨type, by rw [hg]; rfl⟩))
  case succeed =>
    intro t _
    refine .advance (m := m.transition cfg.fake .iceReady) ?_ rfl rfl rfl nofun
    exact { h with }

theorem Tidy.step (h : Tidy m) (horderly : Orderly cfg m a) : Tidy (m.step cfg a) := by
  cases a with
  | main i move => exact h.mainStep horderly
  | dial i type move => exact h.dialStep horderly
  | call i c =>
    rw [step]
    split_ifs
    · cases c <;> exact h.goto nofun nofun nofun
    · exact h
  | fire i due =>
    rw [step]
    split_ifs
    · refine .goto ?_ nofun nofun nofun
      exact { h with }
    · exact h
  | send s => exact h
  | stop s =>
    exact { h with senders := fun s hs => h.senders s ⟨List.mem_of_mem_erase hs.1, hs.2⟩ }
  | syn fails =>
    rw [step]
    cases m.dialer .ice with
    | none => exact h
    | some d =>
      refine h.onIce d fun x h => ?_
      rw [IceDialer.handleSyn, if_pos h, h]
  | agentFails d =>
    rw [step]
    split_ifs
    · exact h.onIce d closed_close
    · exact h
  | lateClose d =>
    rw [step]
    split_ifs
    · exact { h.onIce d closed_close with }
    · exact h
  | register | tick n => exact { h with }

/-! ## The theorem -/

/-- The state and the transport are changed by a discovery that is committed to it. -/
theorem committed_of_change
    (hchange : (m.step cfg a).currentTransport ≠ m.currentTransport ∨
      (m.step cfg a).state ≠ m.state) :
    ∃ i, a.actor = some i ∧ (m.slot i).committed := by
  have hkept : (∃ i, a.actor = some i ∧ (m.slot i).committed) ∨
      (m.step cfg a).currentTransport = m.currentTransport ∧ (m.step cfg a).state = m.state := by
    cases a with
    | main i move =>
      have hmain : ∀ {main : Main}, (m.slot i).main = main → main.commits →
          ∃ j, some i = some j ∧ (m.slot j).committed := fun hmain hcommits =>
        ⟨i, rfl, committed_iff.mpr (.inl (hmain ▸ hcommits))⟩
      apply mainStep_elim (motive := fun m' => (∃ j, some i = some j ∧ (m.slot j).committed) ∨
        m'.currentTransport = m.currentTransport ∧ m'.state = m.state)
      case spawn => exact fun h => .inl (hmain h rfl)
      case assign | succeed => exact fun t h => .inl (hmain h rfl)
      case fail => exact fun failure h _ => .inl (hmain h rfl)
      all_goals intros; exact .inr ⟨rfl, rfl⟩
    | dial i type move =>
      have hgoroutine : ∀ {g : Dialing}, (m.slot i).goroutine type = g → g.commits →
          ∃ j, some i = some j ∧ (m.slot j).committed := fun hg hcommits =>
        ⟨i, rfl, committed_iff.mpr (.inr ⟨type, hg ▸ hcommits⟩)⟩
      apply dialStep_elim (motive := fun m' => (∃ j, some i = some j ∧ (m.slot j).committed) ∨
        m'.currentTransport = m.currentTransport ∧ m'.state = m.state)
      case assign => exact fun t h _ => .inl (hgoroutine h rfl)
      case succeed => exact fun t h => .inl (hgoroutine h rfl)
      all_goals intros; exact .inr ⟨rfl, rfl⟩
    | syn fails =>
      rw [step]
      cases m.dialer .ice <;> exact .inr ⟨rfl, rfl⟩
    | call i c | fire i due | agentFails d | lateClose d =>
      rw [step]
      split_ifs <;> exact .inr ⟨rfl, rfl⟩
    | send s | stop s | register | tick n => exact .inr ⟨rfl, rfl⟩
  exact hkept.resolve_right fun h => hchange.elim (absurd h.1) (absurd h.2)

theorem disciplined_of_tidy (h : Tidy m) (horderly : Orderly cfg m a) : Disciplined cfg m a where
  changes hchange := by
    obtain ⟨i, hi, hcommitted⟩ := committed_of_change hchange
    exact ⟨i, hi, h.committed i hcommitted⟩
  single := (h.step horderly).single
  sends := by
    rintro s rfl hs
    exact h.senders s hs

/-- **Epochs.** In every run of a probe in which restarts are orderly, the discipline of epochs is
kept at every step. -/
theorem disciplined_along (cfg : Config) (acts : List (Act ι))
    (horderly : AlongSteps (step cfg) (Orderly cfg) {} acts) :
    AlongSteps (step cfg) (Disciplined cfg) {} acts :=
  (horderly.invariant (I := Tidy) (fun _ _ h ha => ⟨disciplined_of_tidy h ha, h.step ha⟩)
    tidy_initial).1

section

variable [Fintype ι]

instance (m : Lifecycle ι) : Decidable (MayRaise m) :=
  decidable_of_iff ((∀ j, (m.slot j).committed = false) ∧
      (∀ j, (m.slot j).main.runs → (m.slot j).epoch ≠ m.epoch + 1) ∧ ∀ s ∈ m.senders, ¬Emits m s)
    ⟨fun h => ⟨h.1, h.2.1, h.2.2⟩, fun h => ⟨h.1, h.2, h.3⟩⟩

instance (m : Lifecycle ι) : Decidable (MayRelease m) := inferInstanceAs (Decidable (∀ _, _))

instance (i : ι) (type : TransportType) (m : Lifecycle ι) : Decidable (MayDial cfg i type m) := by
  unfold MayDial
  exact match (m.slot i).goroutine type with
  | .prepares _ => inferInstanceAs (Decidable (_ → _))
  | .loading _ => inferInstanceAs (Decidable (_ → _))
  | .rest | .preparing | .prepared | .dialing _ | .sending _ | .upgrading _ | .upgraded _ =>
      .isTrue trivial

instance (m : Lifecycle ι) : ∀ a, Decidable (Orderly cfg m a)
  | .main _ _ => inferInstanceAs (Decidable (_ ∧ _))
  | .dial i type _ => inferInstanceAs (Decidable (MayDial cfg i type m))
  | .call _ _ | .fire _ _ | .send _ | .stop _ | .syn _ | .agentFails _ | .lateClose _ | .register
  | .tick _ => .isTrue trivial

end

instance two : @NeZero ℕ .ofOfNat0 2 := Nat.instNeZeroSucc

namespace Restarts

open Act

/-- Without the relay, on the side that waits for handshakes. -/
def waits : Config := { enableWrrp := false, initiator := false, fake := "240.0.0.1:1" }

def calls : Config := { enableWrrp := true, initiator := true, fake := "240.0.0.1:1" }

/-- A discovery runs, a restart begins another one, and the first one ends too late. -/
def overtaken : List (Act (Fin 2)) :=
  .call 0 .start :: mains 0 3 ++ dials 0 .ice 3 ++ .call 1 .restart :: mains 1 6 ++
    dials 1 .ice 3 ++ [.dial 0 .ice (.dialed (.error .other)), .main 0 .err] ++ mains 0 1 ++
    [.syn false, .dial 1 .ice (.dialed (.ok "192.0.2.1:51820")), .dial 1 .ice .go,
      .main 1 .result] ++ mains 1 4

/-- WRRP has connected, a restart has raised the epoch, and ICE connects in the old one. -/
def lateUpgrade : List (Act (Fin 2)) :=
  .call 0 .start :: mains 0 3 ++ dials 0 .ice 3 ++ dials 0 .wrrp 3 ++
    [.dial 0 .wrrp (.dialed (.ok "198.51.100.1:6266")), .dial 0 .wrrp .go, .main 0 .result,
      .main 0 .timeout] ++ mains 0 5 ++ .call 1 .restart :: mains 1 6 ++
    .dial 0 .ice (.dialed (.ok "192.0.2.1:51820")) :: dials 0 .ice 2

/-- Two restarts raise the epoch before either of them takes the flag away. -/
def twice : List (Act (Fin 2)) :=
  [.call 0 .restart, .call 1 .restart] ++ mains 0 2 ++ mains 1 2 ++ mains 0 4 ++ mains 1 4

/-- A restart while handshakes are sent. -/
def unanswered : List (Act (Fin 2)) :=
  .call 0 .start :: mains 0 3 ++ dials 0 .ice 2 ++ .call 1 .restart :: mains 1 6

/-- The initiator with both dialers, after a run. -/
def after (acts : List (Act (Fin 2))) : Lifecycle (Fin 2) := ({} : Lifecycle (Fin 2)).run calls acts

end Restarts

/-- A discovery that a restart overtakes: its error is dropped, and the next one connects. -/
theorem disciplined_overtaken :
    AlongSteps (step Restarts.waits) (Disciplined Restarts.waits) {} Restarts.overtaken ∧
      (({} : Lifecycle (Fin 2)).run Restarts.waits Restarts.overtaken).state = .iceReady :=
  ⟨disciplined_along Restarts.waits Restarts.overtaken (by decide), by decide⟩

/-- A late upgrade of an earlier epoch changes the transport and then the state, two discoveries of
one epoch run, and the goroutine of an earlier epoch sends a handshake while the next one runs. -/
theorem epoch_ignored :
    (((Restarts.after Restarts.lateUpgrade).slot 0).epoch = 0 ∧
      (Restarts.after Restarts.lateUpgrade).epoch = 1 ∧
      (Restarts.after Restarts.lateUpgrade).currentTransport =
        some ⟨.wrrp, "198.51.100.1:6266"⟩ ∧
      (Restarts.after (Restarts.lateUpgrade ++ Act.dials 0 .ice 1)).currentTransport =
        some ⟨.ice, "192.0.2.1:51820"⟩ ∧
      (Restarts.after (Restarts.lateUpgrade ++ Act.dials 0 .ice 1)).state = .wrrpReady ∧
      (Restarts.after (Restarts.lateUpgrade ++ Act.dials 0 .ice 2)).state = .iceReady) ∧
    ¬OnePerEpoch (Restarts.after Restarts.twice) ∧
    (Emits (Restarts.after Restarts.unanswered) ⟨.ice, 0, 0⟩ ∧
      (Restarts.after Restarts.unanswered).epoch = 1 ∧
      ((Restarts.after Restarts.unanswered).slot 1).main = .racing 0) := by
  refine ⟨by decide, fun h => ?_, by decide⟩
  have heq := h 0 1 (by decide) (by decide) (by decide)
  cases heq

end Wireflow.Agent.Lifecycle
