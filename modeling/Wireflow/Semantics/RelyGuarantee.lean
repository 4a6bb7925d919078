/-
# Workers over shared state, and rely/guarantee reasoning about them

A fixed family of workers, each running one program over and over, shares one
state. A schedule is a list of actions: a worker is started, a worker issues its
next call, or the environment disturbs the state. Each action carries the choice
that resolves whatever the call leaves open, such as whether it fails, so a run
is a function of its schedule and every interleaving is a schedule.

Reasoning is per worker. A worker *relies* on what the others may do between two
of its calls and *guarantees* something about each of its own. `wp` folds both
into a weakest precondition over the program tree; `Sound.run` assembles the
per-worker facts into an invariant of every run, and `Sound.guar` reports the
guarantee of each step a run takes.

Runs may be restricted to steps meeting a condition, `admits`. The condition
is about the state before the step, so it never assumes what is to be shown.
-/

import Mathlib.Logic.Function.Basic
import Wireflow.Semantics.Program

namespace Semantics

open Function

/-- A family of workers indexed by `ι`. The choice type `κ` resolves a call, and
`ε` is what the environment can do on its own. -/
structure Workers (ι C : Type) (R : C → Type) (σ κ ε : Type) where
  program : ι → Program C R Unit
  exec : (c : C) → κ → σ → R c × σ
  disturb : ε → σ → σ

/-- One scheduled action. -/
inductive Action (ι κ ε : Type)
  | start (i : ι)
  | advance (i : ι) (choice : κ)
  | disturb (e : ε)

/-- The shared state together with what is left of each running worker. -/
structure Config (ι C : Type) (R : C → Type) (σ : Type) where
  shared : σ
  running : ι → Option (Program C R Unit)

namespace Workers

variable {ι C : Type} {R : C → Type} {σ κ ε : Type} [DecidableEq ι]

/-- One scheduled action. Starting a worker that still runs does nothing, so at
most one program of each worker is in progress. -/
def step (W : Workers ι C R σ κ ε) (cfg : Config ι C R σ) : Action ι κ ε → Config ι C R σ
  | .start i =>
      match cfg.running i with
      | none => { cfg with running := update cfg.running i (some (W.program i)) }
      | some _ => cfg
  | .advance i choice =>
      match cfg.running i with
      | some (.call c resume) =>
          { shared := (W.exec c choice cfg.shared).2
            running := update cfg.running i
              (some (resume (W.exec c choice cfg.shared).1)) }
      | some (.ret _) => { cfg with running := update cfg.running i none }
      | none => cfg
  | .disturb e => { cfg with shared := W.disturb e cfg.shared }

/-- A whole schedule. -/
def run (W : Workers ι C R σ κ ε) (cfg : Config ι C R σ) (schedule : List (Action ι κ ε)) :
    Config ι C R σ :=
  schedule.foldl W.step cfg

/-- Nobody is running. -/
def idle (s : σ) : Config ι C R σ := ⟨s, fun _ => none⟩

end Workers

namespace Program

variable {C : Type} {R : C → Type} {α σ κ : Type}

/-- The state after the first calls of a program, one for each choice, with nobody else acting. -/
def drive (exec : (c : C) → κ → σ → R c × σ) : Program C R α → List κ → σ → σ
  | .call c resume, choice :: rest, s =>
      (resume (exec c choice s).1).drive exec rest (exec c choice s).2
  | _, _, s => s

@[simp] theorem drive_nil {exec : (c : C) → κ → σ → R c × σ} (p : Program C R α) (s : σ) :
    p.drive exec [] s = s := by
  cases p <;> rfl

end Program

namespace Workers

variable {ι C : Type} {R : C → Type} {σ κ ε : Type} [DecidableEq ι] {W : Workers ι C R σ κ ε}
  {cfg : Config ι C R σ} {i : ι}

theorem shared_advances_idle (hrun : cfg.running i = none) (choices : List κ) :
    (W.run cfg (choices.map (.advance i))).shared = cfg.shared := by
  induction choices with
  | nil => rfl
  | cons choice rest ih =>
    have hstep : W.step cfg (.advance i choice) = cfg := by rw [step, hrun]
    rw [List.map_cons, run, List.foldl_cons, hstep]
    exact ih

theorem shared_advances {p : Program C R Unit} (hrun : cfg.running i = some p)
    (choices : List κ) :
    (W.run cfg (choices.map (.advance i))).shared = p.drive W.exec choices cfg.shared := by
  induction choices generalizing cfg p with
  | nil => exact (Program.drive_nil p _).symm
  | cons choice rest ih =>
    cases p with
    | call c resume =>
      have hstep : W.step cfg (.advance i choice) =
          ⟨(W.exec c choice cfg.shared).2, update cfg.running i
            (some (resume (W.exec c choice cfg.shared).1))⟩ := by
        rw [step, hrun]
      rw [List.map_cons, run, List.foldl_cons, hstep]
      exact ih (update_self ..)
    | ret a =>
      have hstep : W.step cfg (.advance i choice) =
          { cfg with running := update cfg.running i none } := by
        rw [step, hrun]
      rw [List.map_cons, run, List.foldl_cons, hstep]
      exact shared_advances_idle (update_self ..) rest

/-- A worker that is alone goes through its program. -/
theorem shared_solo (s : σ) (choices : List κ) :
    (W.run (idle s) (.start i :: choices.map (.advance i))).shared =
      (W.program i).drive W.exec choices s := by
  have hstart : (W.step (idle s) (.start i)).running i = some (W.program i) :=
    update_self ..
  exact shared_advances hstart choices

end Workers

/-- What a rely/guarantee argument fixes: the invariant, what each worker relies
on and guarantees, and which steps the runs under consideration may take. -/
structure Contract (ι C σ κ ε : Type) where
  inv : σ → Prop
  rely : ι → σ → σ → Prop
  guar : ι → σ → σ → Prop
  admits : ι → C → κ → σ → Prop
  admitsEnv : ε → σ → Prop
  /-- What a worker leaves behind for its next run. -/
  rest : ι → σ → Prop := fun _ _ => True

namespace Contract

variable {ι C : Type} {R : C → Type} {σ κ ε α β : Type}

/-- The steps a contract admits, along a whole schedule. -/
def Along [DecidableEq ι] (K : Contract ι C σ κ ε) (W : Workers ι C R σ κ ε) :
    Config ι C R σ → List (Action ι κ ε) → Prop
  | _, [] => True
  | cfg, a :: rest =>
      (match a with
        | .start _ => True
        | .advance i choice =>
            ∀ c resume, cfg.running i = some (.call c resume) → K.admits i c choice cfg.shared
        | .disturb e => K.admitsEnv e cfg.shared) ∧
      K.Along W (W.step cfg a) rest

/-- Whether a concrete schedule is admitted can be computed. -/
instance instDecidableAlong [DecidableEq ι] (K : Contract ι C σ κ ε)
    (W : Workers ι C R σ κ ε) [∀ i c choice s, Decidable (K.admits i c choice s)]
    [∀ e s, Decidable (K.admitsEnv e s)] :
    ∀ cfg schedule, Decidable (K.Along W cfg schedule)
  | _, [] => .isTrue trivial
  | cfg, .start i :: rest =>
      haveI := instDecidableAlong K W (W.step cfg (.start i)) rest
      inferInstanceAs (Decidable (True ∧ K.Along W _ rest))
  | cfg, .disturb e :: rest =>
      haveI := instDecidableAlong K W (W.step cfg (.disturb e)) rest
      inferInstanceAs (Decidable (K.admitsEnv e cfg.shared ∧ K.Along W _ rest))
  | cfg, .advance i choice :: rest =>
      haveI := instDecidableAlong K W (W.step cfg (.advance i choice)) rest
      haveI : Decidable (∀ c resume, cfg.running i = some (.call c resume) →
          K.admits i c choice cfg.shared) :=
        match cfg.running i with
        | none => .isTrue nofun
        | some (.ret _) => .isTrue nofun
        | some (.call c _) => decidable_of_iff (K.admits i c choice cfg.shared)
            ⟨fun h _ _ heq => by cases heq; exact h, fun h => h c _ rfl⟩
      inferInstanceAs (Decidable (_ ∧ K.Along W _ rest))

/-- Weakest precondition of worker `i`'s program: before each call the others may
have acted as `rely` allows, and the call keeps the invariant and the guarantee. -/
def wp (K : Contract ι C σ κ ε) (exec : (c : C) → κ → σ → R c × σ) (i : ι) :
    Program C R α → (α → σ → Prop) → σ → Prop
  | .ret a, post, s => post a s
  | .call c resume, post, s =>
      ∀ t, Relation.ReflTransGen (K.rely i) s t → K.inv t → ∀ choice, K.admits i c choice t →
        K.inv (exec c choice t).2 ∧ K.guar i t (exec c choice t).2 ∧
          K.wp exec i (resume (exec c choice t).1) post (exec c choice t).2

variable {K : Contract ι C σ κ ε} {exec : (c : C) → κ → σ → R c × σ} {i : ι}

variable {p : Program C R α}

theorem wp_mono {post post' : α → σ → Prop} (hpost : ∀ a s, post a s → post' a s) {s : σ}
    (h : K.wp exec i p post s) :
    K.wp exec i p post' s := by
  induction p generalizing s with
  | ret a => exact hpost a s h
  | call c resume ih =>
    intro t hrely hinv choice hadm
    obtain ⟨hinv', hguar, hnext⟩ := h t hrely hinv choice hadm
    exact ⟨hinv', hguar, ih _ hnext⟩

/-- Sequential composition. -/
theorem wp_bind {f : α → Program C R β} {post : β → σ → Prop} {s : σ} :
    K.wp exec i (p >>= f) post s ↔
      K.wp exec i p (fun a t => K.wp exec i (f a) post t) s := by
  induction p generalizing s with
  | ret a => exact Iff.rfl
  | call c resume ih =>
    exact forall_congr' fun t => imp_congr_right fun _ => imp_congr_right fun _ =>
      forall_congr' fun choice => imp_congr_right fun _ =>
        and_congr_right fun _ => and_congr_right fun _ => ih _

/-- Sequential composition with a program that may fail. -/
theorem wp_except {E : Type} {p : Program C R (Except E α)} {f : Except E α → Program C R β}
    {Q : Except E α → σ → Prop} {post : β → σ → Prop} {s : σ} (hp : K.wp exec i p Q s)
    (herr : ∀ e t, Q (.error e) t → K.wp exec i (f (.error e)) post t)
    (hok : ∀ a t, Q (.ok a) t → K.wp exec i (f (.ok a)) post t) :
    K.wp exec i (p >>= f) post s := by
  apply wp_bind.mpr
  apply wp_mono _ hp
  intro answer t ht
  cases answer with
  | error e => exact herr e t ht
  | ok a => exact hok a t ht

/-- Interference moves a precondition along, provided the postcondition survives it. -/
theorem wp_of_rely {post : α → σ → Prop} (hstable : ∀ a s t, post a s → K.rely i s t → post a t)
    {s t : σ} (h : K.wp exec i p post s) (hrely : K.rely i s t) : K.wp exec i p post t := by
  cases p with
  | ret a => exact hstable a s t h hrely
  | call c resume => exact fun u hu => h u (.head hrely hu)

/-- An assertion no interference can break. -/
def Stable (K : Contract ι C σ κ ε) (i : ι) (P : σ → Prop) : Prop :=
  ∀ s t, P s → K.rely i s t → P t

theorem Stable.reflTransGen {P : σ → Prop} (hP : K.Stable i P) {s t : σ} (hs : P s)
    (h : Relation.ReflTransGen (K.rely i) s t) : P t := by
  induction h with
  | refl => exact hs
  | tail _ hstep ih => exact hP _ _ ih hstep

variable {c : C}

/-- The rule for one call: carry a stable assertion up to it, and show what the
call does from any state in which the assertion and the invariant hold. -/
theorem wp_call (P : σ → Prop) (hstable : K.Stable i P) {resume : R c → Program C R α}
    {post : α → σ → Prop} {s : σ} (hs : P s)
    (hcall : ∀ t, P t → K.inv t → ∀ choice, K.admits i c choice t →
      K.inv (exec c choice t).2 ∧ K.guar i t (exec c choice t).2 ∧
        K.wp exec i (resume (exec c choice t).1) post (exec c choice t).2) :
    K.wp exec i (.call c resume) post s :=
  fun t hrely hinv choice hadm => hcall t (hstable.reflTransGen hs hrely) hinv choice hadm

/-- Calls that, from any state where the invariant and a stable assertion `A` hold,
keep both and the guarantee. A program confined to such calls needs no further
argument. -/
theorem wp_of_within {A : σ → Prop} (hstable : K.Stable i A) {P : C → Prop} {Q : α → Prop}
    (hcalls : ∀ c, P c → ∀ t choice, A t → K.inv t → K.admits i c choice t →
      K.inv (exec c choice t).2 ∧ K.guar i t (exec c choice t).2 ∧ A (exec c choice t).2)
    (hp : p.Within P Q) {s : σ} (hs : A s) :
    K.wp exec i p (fun a t => Q a ∧ A t) s := by
  induction p generalizing s with
  | ret a => exact ⟨hp, hs⟩
  | call c resume ih =>
    refine wp_call A hstable hs fun t ht hinv choice hadm => ?_
    obtain ⟨hinv', hguar, ht'⟩ := hcalls c hp.1 t choice ht hinv hadm
    exact ⟨hinv', hguar, ih _ (hp.2 _) ht'⟩

/-- A program that obeys, as long as the calls it may issue keep the invariant and the guarantee
and are answered as allowed. -/
theorem wp_of_obeys {A : (c : C) → R c → Prop} {P : C → Prop} {Q : α → Prop}
    (hcalls : ∀ c, P c → ∀ t choice, K.inv t → K.admits i c choice t →
      K.inv (exec c choice t).2 ∧ K.guar i t (exec c choice t).2 ∧ A c (exec c choice t).1)
    (hp : p.Obeys A P Q) (s : σ) : K.wp exec i p (fun a _ => Q a) s := by
  induction p generalizing s with
  | ret a => exact hp
  | call c resume ih =>
    intro t _ hinv choice hadm
    obtain ⟨hinv', hguar, hanswer⟩ := hcalls c hp.1 t choice hinv hadm
    exact ⟨hinv', hguar, ih _ (hp.2 _ hanswer) _⟩

/-! ## From workers to runs -/

/-- The invariant holds, every worker in progress is safe to continue, and the others are at
rest. -/
structure Sound (K : Contract ι C σ κ ε) (W : Workers ι C R σ κ ε) (cfg : Config ι C R σ) :
    Prop where
  inv : K.inv cfg.shared
  safe : ∀ i p, cfg.running i = some p → K.wp W.exec i p (fun _ => K.rest i) cfg.shared
  rest : ∀ i, cfg.running i = none → K.rest i cfg.shared

/-- What has to be shown of the workers, once and for all schedules. -/
structure Respects (K : Contract ι C σ κ ε) (W : Workers ι C R σ κ ε) : Prop where
  program : ∀ i s, K.inv s → K.rest i s → K.wp W.exec i (W.program i) (fun _ => K.rest i) s
  stable : ∀ i, K.Stable i (K.rest i)
  compat : ∀ i j s t, i ≠ j → K.guar i s t → K.rely j s t
  env : ∀ e s, K.inv s → K.admitsEnv e s →
    K.inv (W.disturb e s) ∧ ∀ j, K.rely j s (W.disturb e s)

variable {W : Workers ι C R σ κ ε} {cfg : Config ι C R σ}

theorem sound_idle {s : σ} (hinv : K.inv s) (hrest : ∀ i, K.rest i s) :
    K.Sound W (Workers.idle s) :=
  ⟨hinv, fun _ _ h => (by cases h), fun i _ => hrest i⟩

/-- The others stay safe through a step they rely on. -/
theorem Sound.safe_of_rely (hW : K.Respects W) (h : K.Sound W cfg) {j : ι}
    {p : Program C R Unit} {t : σ} (hj : cfg.running j = some p)
    (hrely : K.rely j cfg.shared t) : K.wp W.exec j p (fun _ => K.rest j) t :=
  wp_of_rely (fun _ => hW.stable j) (h.safe j p hj) hrely

variable [DecidableEq ι]

variable {choice : κ}

/-- What a worker guarantees, at the step it takes. -/
theorem Sound.guar (h : K.Sound W cfg) {i : ι} {resume : R c → Program C R Unit}
    (hrun : cfg.running i = some (.call c resume)) (hadm : K.admits i c choice cfg.shared) :
    K.guar i cfg.shared (W.step cfg (.advance i choice)).shared := by
  have hstep := h.safe i _ hrun cfg.shared .refl h.inv choice hadm
  simpa [Workers.step, hrun] using hstep.2.1

/-- One step of a run: nothing happens to the shared state, a worker keeps its guarantee, or the
environment acts. -/
theorem Sound.step_cases (h : K.Sound W cfg) {a : Action ι κ ε} (hadm : K.Along W cfg [a]) :
    (W.step cfg a).shared = cfg.shared ∨
      (∃ i, K.guar i cfg.shared (W.step cfg a).shared) ∨ ∃ e, a = .disturb e := by
  cases a with
  | disturb e => exact .inr (.inr ⟨e, rfl⟩)
  | start i =>
    left
    cases hi : cfg.running i <;> simp [Workers.step, hi]
  | advance i choice =>
    cases hi : cfg.running i with
    | none =>
      left
      simp [Workers.step, hi]
    | some p =>
      cases p with
      | ret a =>
        left
        simp [Workers.step, hi]
      | call c resume => exact .inr (.inl ⟨i, h.guar hi (hadm.1 c resume hi)⟩)

/-- Replacing one worker's program and moving the shared state keeps soundness
when the replacement is safe and the others survive the move. -/
theorem Sound.update {i : ι} {t : σ} {next : Option (Program C R Unit)} (hinv : K.inv t)
    (hnext : ∀ p, next = some p → K.wp W.exec i p (fun _ => K.rest i) t)
    (hrest : next = none → K.rest i t)
    (hothers : ∀ j p, j ≠ i → cfg.running j = some p → K.wp W.exec j p (fun _ => K.rest j) t)
    (hidle : ∀ j, j ≠ i → cfg.running j = none → K.rest j t) :
    K.Sound W ⟨t, update cfg.running i next⟩ := by
  refine ⟨hinv, fun j p hj => ?_, fun j hj => ?_⟩
  · change Function.update cfg.running i next j = some p at hj
    by_cases hij : j = i
    · subst hij
      rw [update_self] at hj
      exact hnext p hj
    · rw [update_of_ne hij] at hj
      exact hothers j p hij hj
  · change Function.update cfg.running i next j = none at hj
    by_cases hij : j = i
    · subst hij
      rw [update_self] at hj
      exact hrest hj
    · rw [update_of_ne hij] at hj
      exact hidle j hij hj

theorem Sound.advance (hW : K.Respects W) (h : K.Sound W cfg) {i : ι}
    {resume : R c → Program C R Unit} (hrun : cfg.running i = some (.call c resume))
    (hadm : K.admits i c choice cfg.shared) : K.Sound W (W.step cfg (.advance i choice)) := by
  obtain ⟨hinv, hguar, hnext⟩ := h.safe i _ hrun cfg.shared .refl h.inv choice hadm
  have hrely : ∀ j, j ≠ i → K.rely j cfg.shared (W.exec c choice cfg.shared).2 := fun j hji =>
    hW.compat i j _ _ (Ne.symm hji) hguar
  simp only [Workers.step, hrun]
  refine Sound.update hinv ?_ nofun
    (fun j p hji hj => h.safe_of_rely hW hj (hrely j hji))
    fun j hji hj => hW.stable j _ _ (h.rest j hj) (hrely j hji)
  rintro p ⟨⟩
  exact hnext

theorem Sound.start (hW : K.Respects W) (h : K.Sound W cfg) (i : ι) :
    K.Sound W (W.step cfg (.start i)) := by
  cases hrun : cfg.running i with
  | some p => simpa [Workers.step, hrun] using h
  | none =>
    simp only [Workers.step, hrun]
    refine Sound.update h.inv ?_ nofun (fun j p _ => h.safe j p)
      fun j _ => h.rest j
    rintro p ⟨⟩
    exact hW.program i _ h.inv (h.rest i hrun)

/-- A worker with no call left to issue changes nothing but its own slot. -/
theorem Sound.finish (h : K.Sound W cfg) {i : ι}
    (hrun : ∀ c resume, cfg.running i ≠ some (.call c resume)) :
    K.Sound W (W.step cfg (.advance i choice)) := by
  cases hi : cfg.running i with
  | none => simpa [Workers.step, hi] using h
  | some p =>
    cases p with
    | call c resume => exact absurd hi (hrun c resume)
    | ret a =>
      simp only [Workers.step, hi]
      exact Sound.update h.inv nofun (fun _ => h.safe i _ hi)
        (fun j p _ => h.safe j p) fun j _ => h.rest j

theorem Sound.disturb (hW : K.Respects W) (h : K.Sound W cfg) {e : ε}
    (hadm : K.admitsEnv e cfg.shared) : K.Sound W (W.step cfg (.disturb e)) := by
  obtain ⟨hinv, hrely⟩ := hW.env e _ h.inv hadm
  exact ⟨hinv, fun j p hj => h.safe_of_rely hW hj (hrely j),
    fun j hj => hW.stable j _ _ (h.rest j hj) (hrely j)⟩

/-- **Soundness.** Along every admitted schedule the configuration stays sound. -/
theorem Sound.run (hW : K.Respects W) (h : K.Sound W cfg) {schedule : List (Action ι κ ε)}
    (halong : K.Along W cfg schedule) : K.Sound W (W.run cfg schedule) := by
  induction schedule generalizing cfg with
  | nil => exact h
  | cons a rest ih =>
    obtain ⟨hadm, hrest⟩ := halong
    refine ih ?_ hrest
    cases a with
    | start i => exact h.start hW i
    | disturb e => exact h.disturb hW hadm
    | advance i choice =>
      cases hi : cfg.running i with
      | none => exact h.finish (by simp [hi])
      | some p =>
        cases p with
        | ret a => exact h.finish (by simp [hi])
        | call c resume => exact h.advance hW hi (hadm c resume hi)

/-- A contract that asks nothing of the steps admits every schedule. -/
theorem along_of_admits (hcall : ∀ i c choice s, K.admits i c choice s)
    (henv : ∀ e s, K.admitsEnv e s) (schedule : List (Action ι κ ε)) :
    K.Along W cfg schedule := by
  induction schedule generalizing cfg with
  | nil => trivial
  | cons a rest ih =>
    refine ⟨?_, ih⟩
    cases a with
    | start i => trivial
    | advance i choice => exact fun c _ _ => hcall i c choice _
    | disturb e => exact henv e _

/-- A schedule whose choices are all good is admitted where nothing else is asked. -/
theorem along_of_choices {G : κ → Prop} (hcall : ∀ i c choice s, G choice → K.admits i c choice s)
    (henv : ∀ e s, K.admitsEnv e s) {schedule : List (Action ι κ ε)}
    (hgood : ∀ i choice, .advance i choice ∈ schedule → G choice) : K.Along W cfg schedule := by
  induction schedule generalizing cfg with
  | nil => trivial
  | cons a rest ih =>
    refine ⟨?_, ih fun i choice h => hgood i choice (List.mem_cons_of_mem _ h)⟩
    cases a with
    | start i => trivial
    | advance i choice =>
      exact fun c _ _ => hcall i c choice _ (hgood i choice List.mem_cons_self)
    | disturb e => exact henv e _

/-- A schedule splits where one likes. -/
theorem Along.append {first second : List (Action ι κ ε)}
    (h : K.Along W cfg (first ++ second)) :
    K.Along W cfg first ∧ K.Along W (W.run cfg first) second := by
  induction first generalizing cfg with
  | nil => exact ⟨trivial, h⟩
  | cons a rest ih =>
    obtain ⟨hadm, hrest⟩ := h
    obtain ⟨hfirst, hsecond⟩ := ih hrest
    exact ⟨⟨hadm, hfirst⟩, hsecond⟩

end Contract

/-- **Obedient workers.** What every call keeps that a program may issue holds after all schedules,
whatever the interleaving. The answers that the programs count on are those that the invariant
gives. -/
theorem Workers.invariant_of_obeys {ι C : Type} {R : C → Type} {σ κ ε : Type} [DecidableEq ι]
    {W : Workers ι C R σ κ ε} {I : σ → Prop} {A : (c : C) → R c → Prop} {P : C → Prop}
    {G : κ → Prop} (hprogram : ∀ i, (W.program i).Obeys A P fun _ => True)
    (hcall : ∀ c choice s, P c → G choice → I s →
      A c (W.exec c choice s).1 ∧ I (W.exec c choice s).2)
    (henv : ∀ e s, I s → I (W.disturb e s)) {s : σ} (hs : I s) {schedule : List (Action ι κ ε)}
    (hgood : ∀ i choice, .advance i choice ∈ schedule → G choice) :
    I (W.run (Workers.idle s) schedule).shared := by
  let K : Contract ι C σ κ ε :=
    { inv := I
      rely := fun _ _ _ => True
      guar := fun _ _ _ => True
      admits := fun _ _ choice _ => G choice
      admitsEnv := fun _ _ => True }
  have hrespects : K.Respects W :=
    { program := fun i t _ _ => by
        refine Contract.wp_mono (fun _ _ h => h) (Contract.wp_of_obeys ?_ (hprogram i) t)
        intro c hc u choice hinv hadm
        obtain ⟨hanswer, hnext⟩ := hcall c choice u hc hadm hinv
        exact ⟨hnext, trivial, hanswer⟩
      stable := fun _ _ _ _ _ => trivial
      compat := fun _ _ _ _ _ _ => trivial
      env := fun e t hinv _ => ⟨henv e t hinv, fun _ => trivial⟩ }
  have halong : K.Along W (Workers.idle s) schedule :=
    Contract.along_of_choices (fun _ _ _ _ h => h) (fun _ _ => trivial) hgood
  exact ((Contract.sound_idle hs fun _ => trivial).run hrespects halong).inv

/-!
## Journals

When the same program is run by many callers, statements about a run may depend on who issued
a call and on what a caller got in the end. `journal i` turns the calls of a program into
*notes* that carry the caller `i`, and adds a last note with the value returned. A handler of
notes can then keep whatever record is wanted.

Reasoning about a journalled program is reasoning about the program, against the calls as its
caller issues them (`wp_journal`).
-/

variable {ι κ ε σ C α : Type} {R : C → Type}

/-- A call together with its caller, or the value a caller got. -/
inductive Note (ι C α : Type)
  | call (i : ι) (c : C)
  | done (i : ι) (value : α)

/-- A call is answered as before, and the end of a program needs no answer. -/
@[reducible] def Note.Res (R : C → Type) : Note ι C α → Type
  | .call _ c => R c
  | .done _ _ => Unit

/-- The calls of a program as caller `i` issues them, and then what it returned. -/
def Program.journal (i : ι) : Program C R α → Program (Note ι C α) (Note.Res R) Unit
  | .ret a => .call (.done i a) fun _ => .ret ()
  | .call c resume => .call (.call i c) fun r => (resume r).journal i

namespace Contract

/-- What a contract on notes says of the calls of one caller. -/
def callsOf (K : Contract ι (Note ι C α) σ κ ε) (i : ι) : Contract ι C σ κ ε where
  inv := K.inv
  rely := K.rely
  guar := K.guar
  admits j c := K.admits j (.call i c)
  admitsEnv := K.admitsEnv

variable {K : Contract ι (Note ι C α) σ κ ε} {i j : ι}
  {exec : (c : Note ι C α) → κ → σ → Note.Res R c × σ}

/-- A journalled program is safe when the program is, up to the last note. -/
theorem wp_journal {p : Program C R α} {post : Unit → σ → Prop} {s : σ}
    (h : (K.callsOf i).wp (fun c => exec (.call i c)) j p
      (fun a t => K.wp exec j (.call (.done i a) fun _ => .ret ()) post t) s) :
    K.wp exec j (p.journal i) post s := by
  induction p generalizing s with
  | ret a => exact h
  | call c resume ih =>
    intro t hrely hinv choice hadm
    obtain ⟨hinv', hguar, hnext⟩ := h t hrely hinv choice hadm
    exact ⟨hinv', hguar, ih _ hnext⟩

end Contract

end Semantics
