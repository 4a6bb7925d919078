/-
# Deaf probes

A closed ICE dialer drops handshakes. That does no harm while a discovery runs or a restart is
scheduled, for they end in fresh dialers or in another connection. But a dialer closes half a
second after it has connected, and nothing replaces it then.

`hears_iff` says which steps of a run leave a probe that can still be reached.
-/

import Wireflow.Theorems.Node.Epochs

namespace Wireflow.Agent.Lifecycle

open Semantics Function Lifecycle

variable {ι : Type} {cfg : Config} {m m' : Lifecycle ι} {a : Act ι} {i : ι}

/-! ## The notions -/

/-- The current ICE dialer is open. -/
def Listens (m : Lifecycle ι) : Prop := ∃ d, m.dialer .ice = some d ∧ (m.ice d).closed = false

/-- A call of `Start` or `restart` is under way, or the discovery that it begins. -/
def Main.tends : Main → Bool
  | .idle | .closing | .closes _ => false
  | _ => true

/-- Some of the slots tend to the connection, or a restart is scheduled, or the probe is closed. -/
def Attended (m : Lifecycle ι) (slots : Set ι) : Prop :=
  m.shut = true ∨ (∃ j ∈ slots, (m.slot j).main.tends) ∨ m.timers ≠ []

/-- The probe is not deaf. -/
def Hears (m : Lifecycle ι) : Prop := Listens m ∨ Attended m Set.univ

/-- The goroutine of `Start` may end here without a restart: its epoch is over, it has connected, or
it gives up. -/
def Main.ends : Main → Bool
  | .returned _ | .assigned _ | .failed .unreachable => true
  | _ => false

/-- The last one to tend to the connection leaves an open dialer behind, and while nobody tends to
it the current dialer is not closed. -/
def Attentive [DecidableEq ι] (cfg : Config) (m : Lifecycle ι) : Act ι → Prop
  | .main i move => (m.slot i).main.ends → ((m.step cfg (.main i move)).slot i).main = .idle →
      Listens m ∨ Attended m {i}ᶜ
  | a => Listens m → ¬Listens (m.step cfg a) → Attended m Set.univ

/-- An open dialer is one that a handshake changes. -/
theorem handleSyn_ne_iff (x : IceDialer) : x.handleSyn false ≠ x ↔ x.closed = false := by
  obtain ⟨agent, closed⟩ := x
  cases agent <;> cases closed <;> simp [IceDialer.handleSyn, IceDialer.close]

theorem listens_iff_reacts :
    Listens m ↔ ∃ d, m.dialer .ice = some d ∧ (m.ice d).handleSyn false ≠ m.ice d := by
  simp only [Listens, handleSyn_ne_iff]

/-- Handshakes leave a deaf probe as it is. -/
theorem step_syn_of_not_listens [DecidableEq ι] (cfg : Config) (fails : Bool) (h : ¬Listens m) :
    m.step cfg (.syn fails) = m := by
  rw [step]
  cases hdialer : m.dialer .ice with
  | none => rfl
  | some d =>
    have hclosed : (m.ice d).closed = true := by
      by_contra hopen
      exact h ⟨d, hdialer, Bool.not_eq_true _ ▸ hopen⟩
    show m.onIce (IceDialer.handleSyn fails) d = m
    rw [onIce, IceDialer.handleSyn, if_pos hclosed, update_eq_self]

/-! ## Who holds the flag -/

/-- The slot answers for the flag: it is about to take it away, or its discovery holds it. -/
def Slot.Answers (epoch : UInt64) (s : Slot) : Prop := s.main = .raised ∨ s.Holds epoch

/-- The flag is never left behind, and dialers are closed by `Close` only when it has taken the
constructors. -/
structure Attending (m : Lifecycle ι) : Prop where
  flag : m.running = true → ∃ j, (m.slot j).Answers m.epoch
  closes : ∀ j d, (m.slot j).main = .closes d → m.shut = true

variable {s : Slot}

theorem Slot.Answers.tends {epoch : UInt64} (h : s.Answers epoch) : s.main.tends := by
  obtain hmain | hmain | ⟨hruns, -⟩ := h
  · rw [hmain]
    rfl
  · rw [hmain]
    rfl
  · cases hmain : s.main <;> simp_all [Main.runs, Main.tends]

/-- Within `discover` it does so in the given epoch. -/
theorem Slot.Answers.epoch_eq {epoch : UInt64} {main : Main} (h : s.Answers epoch)
    (hmain : s.main = main) (hruns : main.runs) : s.epoch = epoch := by
  subst hmain
  obtain hmain | hmain | h := h
  · rw [hmain] at hruns
    cases hruns
  · rw [hmain] at hruns
    cases hruns
  · exact h.2

theorem Hears.of_tends (htends : (m.slot i).main.tends) : Hears m :=
  .inr (.inr (.inl ⟨i, Set.mem_univ i, htends⟩))

/-- It is enough that everyone who tends to the connection goes on. -/
theorem Hears.mono (h : Hears m) (hlistens : Listens m → Listens m') (hshut : m'.shut = m.shut)
    (htimers : m'.timers = m.timers)
    (htends : ∀ j, (m.slot j).main.tends → (m'.slot j).main.tends) : Hears m' := by
  obtain h | h | ⟨j, -, hj⟩ | h := h
  · exact .inl (hlistens h)
  · exact .inr (.inl (hshut.trans h))
  · exact .of_tends (htends j hj)
  · exact .inr (.inr (.inr (htimers ▸ h)))

variable [DecidableEq ι]

section

variable (h : Attending m)

include h

theorem Attending.closes_setSlot
    (hcloses : ∀ d, s.main = .closes d → (m.slot i).main = .closes d) :
    ∀ j d, (update m.slot i s j).main = .closes d → m.shut = true :=
  (forall_update_iff m.slot fun _ s' => ∀ d, s'.main = .closes d → m.shut = true).mpr
    ⟨fun d hd => h.closes i d (hcloses d hd), fun j _ => h.closes j⟩

variable {next : Main}

/-- A slot goes on, and the flag is given up. -/
theorem Attending.release (hcloses : ∀ d, next ≠ .closes d) :
    Attending ({ m with running := false }.goto i next) where
  flag := nofun
  closes := h.closes_setSlot fun d hd => absurd hd (hcloses d)

/-- A slot goes on and keeps answering for the flag. -/
theorem Attending.setSlot (hanswers : (m.slot i).Answers m.epoch → s.Answers m.epoch)
    (hcloses : ∀ d, s.main = .closes d → (m.slot i).main = .closes d) :
    Attending (m.setSlot i s) := by
  refine ⟨fun hrunning => ?_, h.closes_setSlot hcloses⟩
  obtain ⟨j, hj⟩ := h.flag hrunning
  by_cases hji : j = i
  · refine ⟨i, ?_⟩
    rw [slot_setSlot, update_self]
    exact hanswers (hji ▸ hj)
  · refine ⟨j, ?_⟩
    rw [slot_setSlot, update_of_ne hji]
    exact hj

/-- A slot goes on that has nothing to answer for. -/
theorem Attending.goto (hanswers : ¬(m.slot i).Answers m.epoch) (hcloses : ∀ d, next ≠ .closes d) :
    Attending (m.goto i next) :=
  h.setSlot (fun h => absurd h hanswers) fun d hd => absurd hd (hcloses d)

/-- Outside of `discover`, only a restart that has raised the epoch answers for the flag. -/
theorem Attending.leave {main : Main} (hmain : (m.slot i).main = main) (hraised : main ≠ .raised)
    (hstarted : main ≠ .started) (hruns : main.runs = false) (hcloses : ∀ d, next ≠ .closes d) :
    Attending (m.goto i next) := by
  subst hmain
  refine h.goto ?_ hcloses
  rintro (hi | hi | ⟨hi, -⟩)
  exacts [hraised hi, hstarted hi, absurd (hruns ▸ hi) (by decide)]

variable {move : Move}

theorem Attending.mainStep :
    Attending (m.mainStep cfg i move) := by
  -- within `discover` the slot keeps its epoch
  have hset : ∀ {s : Slot} {main}, (m.slot i).main = main → main.runs → s.main.runs →
      s.epoch = (m.slot i).epoch → Attending (m.setSlot i s) := by
    intro s main hmain hbefore hruns hepoch
    refine h.setSlot (fun hi => ?_) fun d hd => ?_
    · exact .inr (.inr ⟨hruns, hepoch.trans (hi.epoch_eq hmain hbefore)⟩)
    · rw [hd] at hruns
      cases hruns
  apply mainStep_elim
  case stay => exact h
  case drop | replace | busy | assign | succeed | clock | schedule | closeNone | close =>
    intros
    have hmain := ‹(m.slot i).main = _›
    refine .leave ?_ hmain nofun nofun rfl nofun
    exact { h with }
  case raise =>
    intro hmain
    refine ⟨fun _ => ⟨i, .inl ?_⟩, ?_⟩
    · rw [slot_goto, update_self]
    · exact h.closes_setSlot nofun
  case release => exact fun _ => h.release nofun
  case take =>
    intro hmain _
    refine ⟨fun _ => ⟨i, .inr (.inl ?_)⟩, ?_⟩
    · rw [slot_goto, update_self]
    · exact h.closes_setSlot nofun
  case read =>
    exact fun _ => h.setSlot (fun _ => .inr (.inr ⟨rfl, rfl⟩)) nofun
  case spawn =>
    intro hmain
    exact { hset (s := spawned cfg (m.slot i).epoch) hmain rfl rfl rfl with }
  case receiveLate | expire | win | check =>
    intros
    have hmain := ‹(m.slot i).main = _›
    exact hset hmain rfl rfl rfl
  case stale =>
    intro result hmain hepoch
    exact h.goto (fun hi => hepoch (hi.epoch_eq hmain rfl).symm) nofun
  case yield => exact fun result _ => h.release (by cases result <;> nofun)
  case fail =>
    intro failure hmain _
    cases failure <;> refine .leave ?_ hmain nofun nofun rfl nofun <;> exact { h with }
  case receive =>
    intro n t rest hmain _
    refine hset hmain rfl ?_ rfl
    simp only [afterResult]
    split <;> rfl
  case receiveErr =>
    intro n err rest hmain _
    refine hset hmain rfl ?_ rfl
    simp only [afterErr]
    split <;> rfl
  case shut =>
    intro hmain
    refine ⟨fun hrunning => ?_, fun _ _ _ => rfl⟩
    obtain ⟨j, hj⟩ := h.flag hrunning
    have hji : j ≠ i := by
      rintro rfl
      have htends := hj.tends
      rw [hmain] at htends
      cases htends
    refine ⟨j, ?_⟩
    rw [slot_goto, update_of_ne hji]
    exact hj

theorem Attending.dialStep {type : TransportType} :
    Attending (m.dialStep cfg i type move) := by
  have hset : ∀ {m : Lifecycle ι} {s : Slot}, Attending m → s.main = (m.slot i).main →
      s.epoch = (m.slot i).epoch → Attending (m.setSlot i s) := by
    intro m s h hmain hepoch
    refine h.setSlot ?_ fun d hd => hmain ▸ hd
    rw [Slot.Answers, Slot.Answers, Slot.Holds, Slot.Holds, hmain, hepoch]
    exact id
  apply dialStep_elim
  case stay => exact h
  all_goals intros; exact hset { h with } rfl rfl

/-- A call takes a slot that is free. -/
theorem Attending.begin (hrest : (m.slot i).AtRest) (hcloses : ∀ d, next ≠ .closes d) :
    Attending (m.goto i next) := by
  refine h.goto (fun hi => ?_) hcloses
  have htends := hi.tends
  rw [hrest.1] at htends
  cases htends

theorem Attending.step : Attending (m.step cfg a) := by
  cases a with
  | main i move => exact h.mainStep
  | dial i type move => exact h.dialStep
  | call i c =>
    rw [step]
    split_ifs with hrest
    · cases c <;> exact h.begin hrest (by rintro _ ⟨⟩)
    · exact h
  | fire i due =>
    rw [step]
    split_ifs with hrest
    · refine .begin ?_ hrest.1 (by rintro _ ⟨⟩)
      exact { h with }
    · exact h
  | syn fails =>
    rw [step]
    cases m.dialer .ice with
    | none => exact h
    | some d => exact { h with }
  | agentFails d | lateClose d =>
    rw [step]
    split_ifs
    · exact { h with }
    · exact h
  | send s | stop s | register | tick n => exact { h with }

end

/-- **The flag is answered for** in every run. -/
theorem attending_run (cfg : Config) (acts : List (Act ι)) :
    Attending (({} : Lifecycle ι).run cfg acts) :=
  List.foldlRecOn acts _ ⟨nofun, nofun⟩ fun _ h _ _ => h.step

/-! ## Steps -/

/-- A slot that ends leaves it to the others. -/
theorem hears_goto_idle : Hears (m.goto i .idle) ↔ Listens m ∨ Attended m {i}ᶜ := by
  have hothers : (∃ j ∈ Set.univ, ((m.goto i .idle).slot j).main.tends) ↔
      ∃ j ∈ ({i}ᶜ : Set ι), (m.slot j).main.tends := by
    refine exists_congr fun j => ?_
    rw [slot_goto]
    by_cases hji : j = i
    · simp [hji, Main.tends]
    · simp [hji]
  exact or_congr .rfl (or_congr .rfl (or_congr hothers .rfl))

/-- The goroutine of `Start` and its callers leave a probe that hears if and only if the last one
leaves an open dialer. -/
theorem Hears.mainStep_iff (h : Hears m) (hm : Attending m) :
    Hears (m.mainStep cfg i move) ↔
      ((m.slot i).main.ends → ((m.mainStep cfg i move).slot i).main = .idle →
        Listens m ∨ Attended m {i}ᶜ) := by
  -- in most cases the slot goes on
  have htends : ∀ {m' : Lifecycle ι}, (m'.slot i).main.tends → (Hears m' ↔
      ((m.slot i).main.ends → (m'.slot i).main = .idle → Listens m ∨ Attended m {i}ᶜ)) := by
    intro m' hi
    refine iff_of_true (.of_tends hi) fun _ hidle => ?_
    rw [hidle] at hi
    cases hi
  have hkeeps : ∀ {m' : Lifecycle ι} {main}, Hears m' → (m.slot i).main = main →
      main.ends = false → (Hears m' ↔
      ((m.slot i).main.ends → (m'.slot i).main = .idle → Listens m ∨ Attended m {i}ᶜ)) := by
    rintro m' _ hm' rfl hends
    refine iff_of_true hm' fun hi => ?_
    rw [hends] at hi
    cases hi
  have hends : ∀ {main}, (m.slot i).main = main → main.ends → (Hears (m.goto i .idle) ↔
      ((m.slot i).main.ends → ((m.goto i .idle).slot i).main = .idle →
        Listens m ∨ Attended m {i}ᶜ)) := by
    rintro _ rfl hi
    rw [hears_goto_idle, slot_goto, update_self]
    exact ⟨fun h' _ _ => h', fun h' => h' hi rfl⟩
  apply mainStep_elim (motive := fun m' => Hears m' ↔
    ((m.slot i).main.ends → (m'.slot i).main = .idle → Listens m ∨ Attended m {i}ᶜ))
  case stay =>
    refine iff_of_true h fun hi hidle => ?_
    rw [hidle] at hi
    cases hi
  case drop => exact fun hmain hshut => hkeeps (.inr (.inl hshut)) hmain rfl
  case busy =>
    intro hmain hrunning
    obtain ⟨j, hj⟩ := hm.flag hrunning
    have hji : j ≠ i := by
      rintro rfl
      obtain hj | hj | ⟨hj, -⟩ := hj <;> rw [hmain] at hj <;> cases hj
    refine hkeeps (.of_tends (i := j) ?_) hmain rfl
    rw [slot_goto, update_of_ne hji]
    exact hj.tends
  case stale => exact fun result hmain _ => hends hmain rfl
  case succeed => exact fun t hmain => hends hmain rfl
  case fail =>
    intro failure hmain _
    cases failure with
    | unreachable => exact hends hmain rfl
    | dialerClosed | transient => exact htends (by rw [slot_goto, update_self]; rfl)
  case schedule =>
    exact fun hmain => hkeeps (.inr (.inr (.inr (List.cons_ne_nil _ _)))) hmain rfl
  case shut => exact fun hmain => hkeeps (.inr (.inl rfl)) hmain rfl
  case closeNone =>
    exact fun hmain => hkeeps (.inr (.inl (hm.closes i _ hmain))) hmain rfl
  case close =>
    exact fun d hmain => hkeeps (.inr (.inl (hm.closes i _ hmain))) hmain rfl
  case yield =>
    intro result _
    refine htends ?_
    rw [slot_goto, update_self]
    cases result <;> rfl
  case receive =>
    intro n t rest _ _
    refine htends ?_
    rw [slot_setSlot, update_self, afterResult]
    split_ifs <;> rfl
  case receiveErr =>
    intro n err rest _ _
    refine htends ?_
    rw [slot_setSlot, update_self, afterErr]
    split_ifs <;> rfl
  all_goals
    intros
    refine htends ?_
    simp only [slot_goto, slot_setSlot, update_self]
    rfl

/-- What else happens leaves a probe that hears if and only if a dialer that is closed was not the
last hope. -/
theorem Hears.step_iff (h : Hears m) (hm : Attending m) :
    Hears (m.step cfg a) ↔ Attentive cfg m a := by
  -- when slots, timers and `shut` stay, only the dialer matters
  have hsame : ∀ {m' : Lifecycle ι}, (Attended m' Set.univ ↔ Attended m Set.univ) →
      (Hears m' ↔ (Listens m → ¬Listens m' → Attended m Set.univ)) := by
    intro m' hattended
    rw [Hears, hattended]
    refine ⟨fun h' _ hdeaf => h'.resolve_left hdeaf, fun h' => ?_⟩
    by_cases hlistens : Listens m'
    · exact .inl hlistens
    · exact .inr (h.elim (fun hl => h' hl hlistens) id)
  -- and when the dialers stay, it is enough that all who tend go on
  have hmore : ∀ {m' : Lifecycle ι}, Hears m' → (Listens m → Listens m') →
      (Hears m' ↔ (Listens m → ¬Listens m' → Attended m Set.univ)) :=
    fun h' hl => iff_of_true h' fun hlistens hdeaf => absurd (hl hlistens) hdeaf
  cases a with
  | main i move => exact h.mainStep_iff hm
  | dial i type move =>
    have hdial : ∀ {m' : Lifecycle ι} {s : Slot}, s.main = (m.slot i).main →
        (Listens m → Listens m') → m'.shut = m.shut → m'.timers = m.timers → m'.slot = m.slot →
        (Hears (m'.setSlot i s) ↔
          (Listens m → ¬Listens (m'.setSlot i s) → Attended m Set.univ)) := by
      intro m' s hmain hlistens hshut htimers hslot
      refine hmore (h.mono hlistens hshut htimers fun j hj => ?_) hlistens
      rw [slot_setSlot, hslot]
      by_cases hji : j = i
      · rw [hji, update_self, hmain, ← hji]
        exact hj
      · rwa [update_of_ne hji]
    apply dialStep_elim (motive := fun m' => Hears m' ↔
      (Listens m → ¬Listens m' → Attended m Set.univ))
    case stay => exact hmore h id
    case prepare =>
      intro d _
      refine hdial rfl ?_ rfl rfl rfl
      rintro ⟨d', hd', hclosed⟩
      exact ⟨d', hd', (closed_prepare ..).trans hclosed⟩
    all_goals intros; refine hdial rfl ?_ rfl rfl rfl; exact id
  | call i c =>
    simp only [Attentive, step]
    split_ifs with hrest
    · refine hmore (h.mono id rfl rfl fun j hj => ?_) id
      rw [slot_goto, update_of_ne]
      · exact hj
      · rintro rfl
        rw [hrest.1] at hj
        cases hj
    · exact hmore h id
  | fire i due =>
    simp only [Attentive, step]
    split_ifs
    · exact hmore (.of_tends (by rw [slot_goto, update_self]; rfl)) id
    · exact hmore h id
  | syn fails =>
    simp only [Attentive, step]
    cases m.dialer .ice <;> exact hsame .rfl
  | agentFails d | lateClose d =>
    simp only [Attentive, step]
    split_ifs <;> exact hsame .rfl
  | send s | stop s | register | tick n => exact hsame .rfl

/-! ## The theorem -/

namespace Hearing

open Act

variable (enableWrrp : Bool)

/-- The initiator, with or without the relay. -/
def config : Config :=
  { enableWrrp := enableWrrp, initiator := true, fake := "240.0.0.1:1" }

/-- ICE connects, and its dialer closes half a second later. -/
def connects : List (Act Unit) :=
  .call () .start :: mains () 3 ++ dials () .ice 3 ++
    .dial () .ice (.dialed (.ok "192.0.2.1:51820")) :: dials () .ice 2 ++
    .main () .result :: mains () 4 ++ [.lateClose 0]

def after : Lifecycle Unit :=
  ({} : Lifecycle Unit).run (config enableWrrp) connects

/-- Whatever handshakes the remote sends, the probe that is connected stays as it is. -/
def Deaf : Prop :=
  (after enableWrrp).state = .iceReady ∧ ¬Hears (after enableWrrp) ∧
    ∀ fails, (after enableWrrp).step (config enableWrrp) (.syn fails) = after enableWrrp

theorem deaf : Deaf enableWrrp := by
  have hdeaf : ¬Listens (after enableWrrp) := by
    rintro ⟨d, hd, hopen⟩
    obtain rfl : 0 = d := by cases enableWrrp <;> exact Option.some.inj hd
    cases enableWrrp <;> cases hopen
  refine ⟨by cases enableWrrp <;> rfl, ?_, fun fails => step_syn_of_not_listens _ fails hdeaf⟩
  rintro (h | h | ⟨⟨⟩, -, h⟩ | h)
  · exact hdeaf h
  · cases enableWrrp <;> cases h
  · cases enableWrrp <;> cases h
  · cases enableWrrp <;> exact h rfl

end Hearing

end Wireflow.Agent.Lifecycle
