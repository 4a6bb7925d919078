/-
# Interaction programs

A program that acts on shared state only through *calls*: it issues a call,
receives an answer, and continues. Everything between two calls is pure, so a
call is the unit at which programs interleave.

A call `c` carries its own answer type `R c`. The program is a tree over all
possible answers; nothing in it says how a call is answered. A *handler* does,
and the same program can be run against one handler in isolation or be
interleaved with others, as in `Wireflow.Semantics.RelyGuarantee`.
-/

import Mathlib.Logic.Relation

namespace Semantics

/-- A program issuing calls from `C`, where call `c` is answered in `R c`. -/
inductive Program (C : Type) (R : C → Type) (α : Type) : Type
  | ret (value : α) : Program C R α
  | call (c : C) (resume : R c → Program C R α) : Program C R α

namespace Program

variable {C : Type} {R : C → Type} {α β γ σ : Type}

/-- Sequential composition: `f` continues from wherever the program returns. -/
protected def bind : Program C R α → (α → Program C R β) → Program C R β
  | ret a, f => f a
  | call c resume, f => call c fun r => (resume r).bind f

instance : Monad (Program C R) where
  pure := ret
  bind := Program.bind

/-- The program that issues a single call and returns its answer. -/
def perform (c : C) : Program C R (R c) := call c ret

@[simp] theorem pure_eq_ret (a : α) : (pure a : Program C R α) = ret a := rfl

@[simp] theorem call_bind (c : C) (resume : R c → Program C R α) (f : α → Program C R β) :
    (call c resume >>= f) = call c fun r => resume r >>= f := rfl

@[simp] theorem ret_bind (a : α) (f : α → Program C R β) : (ret a >>= f) = f a := rfl

theorem bind_ret (p : Program C R α) : (p >>= ret) = p := by
  induction p with
  | ret a => rfl
  | call c resume ih => rw [call_bind]; congr 1; funext r; exact ih r

theorem bind_assoc (p : Program C R α) (f : α → Program C R β) (g : β → Program C R γ) :
    (p >>= f >>= g) = (p >>= fun a => f a >>= g) := by
  induction p with
  | ret a => rfl
  | call c resume ih => simp only [call_bind]; congr 1; funext r; exact ih r

instance : LawfulMonad (Program C R) :=
  LawfulMonad.mk' (Program C R) bind_ret (fun _ _ => rfl) bind_assoc

/-! ## Programs that may fail -/

section Fallible

variable {E E' : Type}

/-- Continue with the value of a program, or return its error. -/
def unwrap (p : Program C R (Except E α)) (f : α → Program C R (Except E β)) :
    Program C R (Except E β) :=
  p >>= fun
    | .error e => ret (.error e)
    | .ok a => f a

/-- Report another error. -/
def mapError (g : E → E') (p : Program C R (Except E α)) : Program C R (Except E' α) :=
  p >>= fun r => ret (r.mapError g)

end Fallible

/-! ## Where a program stays

A bound on the calls a program can issue and on what it can return, whatever the
answers. It is a property of the tree alone. -/

/-- Every call satisfies `P` and every returned value satisfies `Q`. -/
def Within (P : C → Prop) (Q : α → Prop) : Program C R α → Prop
  | ret a => Q a
  | call c resume => P c ∧ ∀ r, (resume r).Within P Q

variable {a : α} {c : C} {p : Program C R α} {f : α → Program C R β}

section Within

variable {P : C → Prop} {Q : α → Prop} {Q' : β → Prop}

theorem within_ret (h : Q a) : (ret a : Program C R α).Within P Q := h

theorem within_perform {Q : R c → Prop} (hc : P c) (hQ : ∀ r, Q r) :
    (perform c : Program C R (R c)).Within P Q := ⟨hc, hQ⟩

theorem within_bind (hp : p.Within P Q)
    (hf : ∀ a, Q a → (f a).Within P Q') : (p >>= f).Within P Q' := by
  induction p with
  | ret a => exact hf a hp
  | call c resume ih => exact ⟨hp.1, fun r => ih r (hp.2 r)⟩

/-- Composition with a program that may fail. -/
theorem within_except {E : Type} {p : Program C R (Except E α)} {f : Except E α → Program C R β}
    {Q : Except E α → Prop} (hp : p.Within P Q)
    (herr : ∀ e, Q (.error e) → (f (.error e)).Within P Q')
    (hok : ∀ a, Q (.ok a) → (f (.ok a)).Within P Q') : (p >>= f).Within P Q' := by
  refine within_bind hp fun r hr => ?_
  cases r with
  | error e => exact herr e hr
  | ok a => exact hok a hr

theorem Within.mono {P' : C → Prop} {Q' : α → Prop} (hp : p.Within P Q)
    (hP : ∀ c, P c → P' c) (hQ : ∀ a, Q a → Q' a) : p.Within P' Q' := by
  induction p with
  | ret a => exact hQ a hp
  | call c resume ih => exact ⟨hP c hp.1, fun r => ih r (hp.2 r)⟩

/-- Every program issues some calls and returns something. -/
theorem within_true (p : Program C R α) : p.Within (fun _ => True) fun _ => True := by
  induction p with
  | ret a => trivial
  | call c resume ih => exact ⟨trivial, ih⟩

end Within

/-! ## What a program returns, given its answers -/

/-- Every value the program returns after answers allowed by `A` satisfies `Q`. -/
def Yields (A : (c : C) → R c → Prop) (Q : α → Prop) : Program C R α → Prop
  | ret a => Q a
  | call c resume => ∀ r, A c r → (resume r).Yields A Q

section Yields

variable {A : (c : C) → R c → Prop} {Q : α → Prop} {Q' : β → Prop}

theorem yields_ret (h : Q a) : (ret a : Program C R α).Yields A Q := h

theorem yields_perform (c : C) : (perform c : Program C R (R c)).Yields A (A c) :=
  fun _ hr => hr

theorem yields_bind (hp : p.Yields A Q)
    (hf : ∀ a, Q a → (f a).Yields A Q') : (p >>= f).Yields A Q' := by
  induction p with
  | ret a => exact hf a hp
  | call c resume ih => exact fun r hr => ih r (hp r hr)

theorem Yields.mono {Q' : α → Prop} (hp : p.Yields A Q) (hQ : ∀ a, Q a → Q' a) : p.Yields A Q' := by
  induction p with
  | ret a => exact hQ a hp
  | call c resume ih => exact fun r hr => ih r (hp r hr)

theorem Within.yields {P : C → Prop} (hp : p.Within P Q) : p.Yields A Q := by
  induction p with
  | ret a => exact hp
  | call c resume ih => exact fun r _ => ih r (hp.2 r)

theorem Yields.and {Q' : α → Prop} (hp : p.Yields A Q)
    (hp' : p.Yields A Q') : p.Yields A fun a => Q a ∧ Q' a := by
  induction p with
  | ret a => exact ⟨hp, hp'⟩
  | call c resume ih => exact fun r hr => ih r (hp r hr) (hp' r hr)

end Yields

/-! ## Where a program stays, given its answers -/

/-- After answers allowed by `A`, every call satisfies `P` and every returned value `Q`. -/
def Obeys (A : (c : C) → R c → Prop) (P : C → Prop) (Q : α → Prop) : Program C R α → Prop
  | ret a => Q a
  | call c resume => P c ∧ ∀ r, A c r → (resume r).Obeys A P Q

section Obeys

variable {A : (c : C) → R c → Prop} {P : C → Prop} {Q : α → Prop} {Q' : β → Prop}

theorem obeys_perform (hc : P c) : (perform c : Program C R (R c)).Obeys A P (A c) :=
  ⟨hc, fun _ hr => hr⟩

theorem obeys_bind (hp : p.Obeys A P Q)
    (hf : ∀ a, Q a → (f a).Obeys A P Q') : (p >>= f).Obeys A P Q' := by
  induction p with
  | ret a => exact hf a hp
  | call c resume ih => exact ⟨hp.1, fun r hr => ih r (hp.2 r hr)⟩

theorem Within.obeys (hp : p.Within P Q) : p.Obeys A P Q := by
  induction p with
  | ret a => exact hp
  | call c resume ih => exact ⟨hp.1, fun r _ => ih r (hp.2 r)⟩

theorem obeys_unwrap {E : Type} {p : Program C R (Except E α)}
    {f : α → Program C R (Except E β)} {Q : Except E α → Prop} {Q' : Except E β → Prop}
    (hp : p.Obeys A P Q) (herr : ∀ e, Q (.error e) → Q' (.error e))
    (hf : ∀ a, Q (.ok a) → (f a).Obeys A P Q') : (p.unwrap f).Obeys A P Q' := by
  refine obeys_bind hp fun r hr => ?_
  cases r with
  | error e => exact herr e hr
  | ok a => exact hf a hr

end Obeys

/-! ## Running in isolation -/

/-- Run a program against a handler, with nobody else acting in between. -/
def run (handle : (c : C) → σ → R c × σ) : Program C R α → σ → α × σ
  | ret a, s => (a, s)
  | call c resume, s => (resume (handle c s).1).run handle (handle c s).2

variable {handle : (c : C) → σ → R c × σ}

@[simp] theorem run_ret (a : α) (s : σ) : (ret a : Program C R α).run handle s = (a, s) := rfl

@[simp] theorem run_call (c : C) (resume : R c → Program C R α) (s : σ) :
    (call c resume).run handle s = (resume (handle c s).1).run handle (handle c s).2 := rfl

/-- A composite runs its first part and then continues from what that left. -/
theorem run_bind (p : Program C R α) (f : α → Program C R β) (s : σ) :
    (p >>= f).run handle s = (f (p.run handle s).1).run handle (p.run handle s).2 := by
  induction p generalizing s with
  | ret a => rfl
  | call c resume ih => exact ih (handle c s).1 (handle c s).2

/-! Programs that may fail go on only with a value. -/

section Fallible

variable {E E' : Type} {p : Program C R (Except E α)} {f : α → Program C R (Except E β)} {s : σ}

theorem run_unwrap_ok (h : (p.run handle s).1 = .ok a) :
    (p.unwrap f).run handle s = (f a).run handle (p.run handle s).2 := by
  rw [unwrap, run_bind, h]

theorem run_unwrap_error {e : E} (h : (p.run handle s).1 = .error e) :
    (p.unwrap f).run handle s = (.error e, (p.run handle s).2) := by
  rw [unwrap, run_bind, h]
  rfl

/-- A composite that returns a value got one from its first part. -/
theorem unwrap_eq_ok {b : β} (h : ((p.unwrap f).run handle s).1 = .ok b) :
    ∃ a, (p.run handle s).1 = .ok a ∧
      (p.unwrap f).run handle s = (f a).run handle (p.run handle s).2 := by
  cases hp : (p.run handle s).1 with
  | error e =>
    rw [run_unwrap_error hp] at h
    cases h
  | ok a => exact ⟨a, rfl, run_unwrap_ok hp⟩

/-- Another error is reported only for an error. -/
theorem mapError_eq_ok {g : E → E'} (h : ((p.mapError g).run handle s).1 = .ok a) :
    (p.run handle s).1 = .ok a ∧ (p.mapError g).run handle s = (.ok a, (p.run handle s).2) := by
  rw [mapError, run_bind] at h ⊢
  cases hp : (p.run handle s).1 with
  | error e =>
    rw [hp] at h
    cases h
  | ok b =>
    rw [hp] at h
    cases h
    exact ⟨rfl, rfl⟩

end Fallible

section Run

variable {P : C → Prop} {Q Q' : α → Prop} {I : σ → Prop} {A : (c : C) → R c → Prop}

/-- What every permitted call preserves holds after the run. -/
theorem run_invariant (hp : p.Within P Q)
    (hstep : ∀ c s, P c → I s → I (handle c s).2) {s : σ} (hs : I s) : I (p.run handle s).2 := by
  induction p generalizing s with
  | ret a => exact hs
  | call c resume ih => exact ih _ (hp.2 _) (hstep c s hp.1 hs)

/-- A run against a handler that stays within the allowed answers. -/
theorem run_yields (hp : p.Within P Q) (hy : p.Yields A Q')
    (hstep : ∀ c s, P c → I s → A c (handle c s).1 ∧ I (handle c s).2) {s : σ} (hs : I s) :
    Q' (p.run handle s).1 := by
  induction p generalizing s with
  | ret a => exact hy
  | call c resume ih =>
    obtain ⟨hanswer, hnext⟩ := hstep c s hp.1 hs
    exact ih _ (hp.2 _) (hy _ hanswer) hnext

/-- A program that obeys, run against a handler whose answers are allowed. -/
theorem run_obeys (hp : p.Obeys A P Q)
    (hstep : ∀ c s, P c → I s → A c (handle c s).1 ∧ I (handle c s).2) {s : σ} (hs : I s) :
    Q (p.run handle s).1 ∧ I (p.run handle s).2 := by
  induction p generalizing s with
  | ret a => exact ⟨hp, hs⟩
  | call c resume ih =>
    obtain ⟨hanswer, hnext⟩ := hstep c s hp.1 hs
    exact ih _ (hp.2 _ hanswer) hnext

/-- Two handlers that answer permitted calls alike return the same value. -/
theorem run_congr {τ : Type} {handle' : (c : C) → τ → R c × τ} {S : σ → τ → Prop}
    (hp : p.Within P Q)
    (hstep : ∀ c s t, P c → S s t →
      (handle c s).1 = (handle' c t).1 ∧ S (handle c s).2 (handle' c t).2)
    {s : σ} {t : τ} (h : S s t) : (p.run handle s).1 = (p.run handle' t).1 := by
  induction p generalizing s t with
  | ret a => rfl
  | call c resume ih =>
    obtain ⟨hanswer, hnext⟩ := hstep c s t hp.1 h
    rw [run_call, run_call, hanswer]
    exact ih _ (hp.2 _) hnext

/-- What a run returns satisfies whatever all returned values satisfy. -/
theorem run_within (hp : p.Within P Q) (s : σ) : Q (p.run handle s).1 := by
  induction p generalizing s with
  | ret a => exact hp
  | call c resume ih => exact ih _ (hp.2 _) _

end Run

/-! ## Postconditions of a run

`Ensures` says what a run returns and leaves. It follows the composition of the
program, so that a long program is treated one call at a time. -/

/-- The run from `s` returns and leaves something that satisfies `post`. -/
def Ensures (handle : (c : C) → σ → R c × σ) (p : Program C R α) (post : α → σ → Prop)
    (s : σ) : Prop :=
  post (p.run handle s).1 (p.run handle s).2

section Ensures

variable {P : C → Prop} {Q : α → Prop} {I : σ → Prop} {s : σ}

theorem ensures_bind {post : β → σ → Prop} :
    (p >>= f).Ensures handle post s ↔
      p.Ensures handle (fun a t => (f a).Ensures handle post t) s := by
  unfold Ensures
  rw [run_bind]

/-- One call, answered by the handler. -/
theorem ensures_call {resume : R c → Program C R α} {post : α → σ → Prop} :
    (call c resume).Ensures handle post s ↔
      (resume (handle c s).1).Ensures handle post (handle c s).2 := Iff.rfl

theorem Ensures.mono {post post' : α → σ → Prop}
    (h : p.Ensures handle post s) (hpost : ∀ a t, post a t → post' a t) :
    p.Ensures handle post' s :=
  hpost _ _ h

theorem Ensures.and {post post' : α → σ → Prop}
    (h : p.Ensures handle post s) (h' : p.Ensures handle post' s) :
    p.Ensures handle (fun a t => post a t ∧ post' a t) s :=
  ⟨h, h'⟩

/-- Sequential composition, with an assertion in between. -/
theorem Ensures.bind {mid : α → σ → Prop} {post : β → σ → Prop} (hp : p.Ensures handle mid s)
    (hf : ∀ a t, mid a t → (f a).Ensures handle post t) : (p >>= f).Ensures handle post s :=
  ensures_bind.mpr (hp.mono hf)

/-- Composition of programs that may fail. -/
theorem Ensures.unwrap {E : Type} {p : Program C R (Except E α)}
    {f : α → Program C R (Except E β)} {mid : Except E α → σ → Prop}
    {post : Except E β → σ → Prop} (hp : p.Ensures handle mid s)
    (herr : ∀ e t, mid (.error e) t → post (.error e) t)
    (hok : ∀ a t, mid (.ok a) t → (f a).Ensures handle post t) :
    (p.unwrap f).Ensures handle post s := by
  refine hp.bind fun r t hmid => ?_
  cases r with
  | error e => exact herr e t hmid
  | ok a => exact hok a t hmid

theorem Ensures.mapError {E E' : Type} {p : Program C R (Except E α)} {g : E → E'}
    {mid : Except E α → σ → Prop} {post : Except E' α → σ → Prop} (hp : p.Ensures handle mid s)
    (herr : ∀ e t, mid (.error e) t → post (.error (g e)) t)
    (hok : ∀ a t, mid (.ok a) t → post (.ok a) t) : (p.mapError g).Ensures handle post s := by
  refine hp.bind fun r t hmid => ?_
  cases r with
  | error e => exact herr e t hmid
  | ok a => exact hok a t hmid

/-- A program confined to calls that keep `I`. -/
theorem ensures_of_within (hp : p.Within P Q)
    (hstep : ∀ c t, P c → I t → I (handle c t).2) (hs : I s) :
    p.Ensures handle (fun a t => Q a ∧ I t) s :=
  ⟨run_within hp s, run_invariant hp hstep hs⟩

end Ensures

end Program

/-!
## Two kinds of calls

Programs of two components run against one state, each with calls of its own. A program of either
component is one over the calls of both.
-/

namespace Program

variable {C D : Type} {R : C → Type} {S : D → Type} {α : Type}

/-- A program of the first component. -/
def inl : Program C R α → Program (C ⊕ D) (Sum.elim R S) α
  | ret a => ret a
  | call c resume => call (.inl c) fun r => (resume r).inl

/-- A program of the second component. -/
def inr : Program D S α → Program (C ⊕ D) (Sum.elim R S) α
  | ret a => ret a
  | call d resume => call (.inr d) fun r => (resume r).inr

variable {A : (c : C ⊕ D) → Sum.elim R S c → Prop} {P : C ⊕ D → Prop} {Q : α → Prop}

theorem obeys_inl {p : Program C R α}
    (hp : p.Obeys (fun c => A (.inl c)) (fun c => P (.inl c)) Q) :
    (p.inl : Program (C ⊕ D) (Sum.elim R S) α).Obeys A P Q := by
  induction p with
  | ret a => exact hp
  | call c resume ih => exact ⟨hp.1, fun r hr => ih r (hp.2 r hr)⟩

theorem obeys_inr {p : Program D S α}
    (hp : p.Obeys (fun d => A (.inr d)) (fun d => P (.inr d)) Q) :
    (p.inr : Program (C ⊕ D) (Sum.elim R S) α).Obeys A P Q := by
  induction p with
  | ret a => exact hp
  | call d resume ih => exact ⟨hp.1, fun r hr => ih r (hp.2 r hr)⟩

end Program

end Semantics
