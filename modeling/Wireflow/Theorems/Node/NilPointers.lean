/-
# Nil pointers

Which interleavings dereference no nil pointer. A goroutine may have compared a pointer with nil,
or a flag that says the same, before another one takes the pointer away; and some pointers are
dereferenced without a look.

`no_crash_along` is about all schedules in which packets are complete, nobody reads the dialers of a
closed probe, and an agent is dereferenced only where there is one, or where the dialer is open.
The last part needs an argument: an open dialer that was offered a candidate, or that gathers them,
has an agent. `packets_crash` has a schedule for each pointer.
-/

import Wireflow.Agent.Handling
import Wireflow.Semantics.StableFacts

namespace Wireflow.Agent.Handling

open Semantics

variable {ι : Type} {setup : Setup} {s : Shared} {d : ℕ}

/-! ## Careful steps -/

/-- The packet has what its type promises, and the node has the relay it needs. -/
def Task.complete (setup : Setup) : Task → Bool
  | .handle pk =>
      (pk.offer.isSome || !(pk.type == .offer || pk.type == .answer)) &&
        (setup.relay || pk.dialer != some .wrrp)
  | .discover .wrrp => setup.relay
  | _ => true

/-- A step at which no pointer is nil that is dereferenced: the probe is not closed when a dialer
is read or a constructor called, an offer reaches a dialer with an agent, and the agent is otherwise
used on an open dialer only. -/
def Op.careful (t : Task) (s : Shared) : Op → Bool
  | .loadDialer _ | .replaceDialers => !s.shut
  | .useAgent d =>
      match t with
      | .handle _ => (s.ice d).agent
      | _ => !(s.ice d).closed
  | _ => true

/-- The condition on steps. -/
def Careful (setup : Setup) (i : ι × Task) (op : Op) (_ : Choice) (s : Shared) : Prop :=
  i.2.complete setup && op.careful i.2 s

instance (i : ι × Task) (op : Op) (choice : Choice) (s : Shared) :
    Decidable (Careful setup i op choice s) := inferInstanceAs (Decidable (_ = true))

/-! ## What goroutines know -/

/-- What no goroutine undoes. -/
inductive Fact
  /-- The dialer has an agent, unless it was closed. -/
  | kept (d : ℕ)
  | closed (d : ℕ)
  | offered (d : ℕ)
  | gathers (d : ℕ)

def Fact.Holds (s : Shared) : Fact → Prop
  | .kept d => (s.ice d).agent = true ∨ (s.ice d).closed = true
  | .closed d => (s.ice d).closed = true
  | .offered d => (s.ice d).offerReady = true
  | .gathers d => (s.ice d).gathering = true

/-- An open dialer that was offered a candidate or gathers them has an agent. -/
def Ice.Sane (x : Ice) : Prop :=
  x.closed = false → x.offerReady = true ∨ x.gathering = true → x.agent = true

structure Inv (s : Shared) : Prop where
  crashed : s.crashed = none
  dialer : s.shut = false → ∀ type, (s.dialer type).isSome
  ice : ∀ d, (s.ice d).Sane

/-- What the goroutine of a task needs and learns. -/
def lore (setup : Setup) (t : Task) : Lore Op Op.Answer Fact where
  needs
    | .gatherCandidates d, F | .closeOfferReady d, F => .kept d ∈ F
    | .takeAgent d, F => .closed d ∈ F
    | .useAgent d, F => (∃ pk, t = .handle pk) ∨ .offered d ∈ F ∨ .gathers d ∈ F
    | .crash _, _ => False
    | _, _ => True
  allows op r := t.complete setup ∧ match op, r with
    | .loadDialer _, r => r.isSome
    | .replaceDialers, r | .useAgent _, r => r = true
    | _, _ => True
  teaches
    | .loadAgent d, r | .useAgent d, r => {φ | φ = .kept d ∧ r = true}
    | .storeAgent d, _ => {.kept d}
    | .storeClosed d, _ => {.closed d}
    | .awaitOffer d, r => {φ | φ = .offered d ∧ r = .ready}
    | .nextCandidate d, r => {φ | φ = .gathers d ∧ r = true}
    | _, _ => ∅

/-! ## Calls keep the invariant and the facts -/

/-- What a dialer that goes on does not lose. -/
structure Ice.Grows (x y : Ice) : Prop where
  kept : x.agent = true ∨ x.closed = true → y.agent = true ∨ y.closed = true
  closed : x.closed = true → y.closed = true
  offered : x.offerReady = true → y.offerReady = true
  gathers : x.gathering = true → y.gathering = true

/-- A call is answered as the goroutine expects. -/
structure Sound (setup : Setup) (t : Task) (op : Op) (choice : Choice) (s : Shared) : Prop where
  inv : Inv (exec op choice s).2
  kept : ∀ φ, Fact.Holds s φ → Fact.Holds (exec op choice s).2 φ
  allowed : (lore setup t).allows op (exec op choice s).1
  taught : ∀ φ ∈ (lore setup t).teaches op (exec op choice s).1, Fact.Holds (exec op choice s).2 φ

theorem Inv.onIce (h : Inv s) {f : Ice → Ice} (hsane : (f (s.ice d)).Sane) :
    Inv (s.onIce f d) where
  crashed := h.crashed
  dialer := h.dialer
  ice := (Function.forall_update_iff s.ice fun _ x => x.Sane).mpr ⟨hsane, fun n _ => h.ice n⟩

theorem holds_onIce {f : Ice → Ice} (hgrows : (s.ice d).Grows (f (s.ice d))) (φ : Fact)
    (h : φ.Holds s) : φ.Holds (s.onIce f d) := by
  have hgrows' : ∀ n, (s.ice n).Grows ((s.onIce f d).ice n) := by
    refine (Function.forall_update_iff s.ice fun n x => (s.ice n).Grows x).mpr
      ⟨hgrows, fun n _ => ⟨id, id, id, id⟩⟩
  cases φ with
  | kept n => exact (hgrows' n).kept h
  | closed n => exact (hgrows' n).closed h
  | offered n => exact (hgrows' n).offered h
  | gathers n => exact (hgrows' n).gathers h

/-- The dialer itself knows what holds of it after a call. -/
theorem ice_onIce_self (f : Ice → Ice) : (s.onIce f d).ice d = f (s.ice d) :=
  Function.update_self ..

theorem Ice.offerReady_of_select {x : Ice} {awaited : Awaited} (h : x.select awaited = .ready) :
    x.offerReady = true := by
  cases awaited <;> simp only [Ice.select] at h
  · cases h
  · split_ifs at h
  · split_ifs at h with hready
    exact hready

theorem sound_exec (setup : Setup) (t : Task) (op : Op) (choice : Choice) (s : Shared)
    (F : Set Fact) (hneeds : (lore setup t).needs op F) (hF : ∀ φ ∈ F, Fact.Holds s φ)
    (h : Inv s) (hcomplete : t.complete setup) (hcareful : op.careful t s) :
    Sound setup t op choice s := by
  -- a call that only reads
  have hreads : ∀ {op : Op}, (exec op choice s).2 = s →
      (lore setup t).allows op (exec op choice s).1 →
      (∀ φ ∈ (lore setup t).teaches op (exec op choice s).1, Fact.Holds s φ) →
      Sound setup t op choice s := by
    intro op hsame hallowed htaught
    exact ⟨by rwa [hsame], by rw [hsame]; exact fun _ => id, hallowed, by rwa [hsame]⟩
  -- a call that changes a dialer
  have hstores : ∀ {op : Op} (f : Ice → Ice) (d : ℕ), (exec op choice s).2 = s.onIce f d →
      (f (s.ice d)).Sane → (s.ice d).Grows (f (s.ice d)) →
      (lore setup t).allows op (exec op choice s).1 →
      (∀ φ ∈ (lore setup t).teaches op (exec op choice s).1, Fact.Holds (s.onIce f d) φ) →
      Sound setup t op choice s := by
    intro op f d hop hsane hgrows hallowed htaught
    exact ⟨by rw [hop]; exact h.onIce hsane, by rw [hop]; exact holds_onIce hgrows, hallowed,
      by rwa [hop]⟩
  cases op with
  | loadDialer type =>
    have hshut : s.shut = false := by simpa [Op.careful] using hcareful
    exact hreads rfl ⟨hcomplete, h.dialer hshut type⟩ nofun
  | loadConstructor | loadClosed d | awaitReady d | outcome =>
    exact hreads rfl ⟨hcomplete, trivial⟩ nofun
  | replaceDialers =>
    have hshut : s.shut = false := by simpa [Op.careful] using hcareful
    have hop : exec .replaceDialers choice s =
        (true, { s with dialer := fun _ => some s.made, made := s.made + 1 }) := by
      rw [exec, hshut]
      rfl
    refine ⟨?_, ?_, ⟨hcomplete, ?_⟩, nofun⟩
    · rw [hop]
      exact ⟨h.crashed, fun _ _ => rfl, h.ice⟩
    · rw [hop]
      exact fun φ hφ => hφ
    · rw [hop]
  | takeDialers => exact ⟨⟨h.crashed, nofun, h.ice⟩, fun φ hφ => hφ, ⟨hcomplete, trivial⟩, nofun⟩
  | loadAgent d =>
    refine hreads rfl ⟨hcomplete, trivial⟩ ?_
    rintro _ ⟨rfl, hagent⟩
    exact .inl hagent
  | useAgent d =>
    have hagent : (s.ice d).agent = true := by
      obtain ⟨pk, rfl⟩ | hknown := hneeds
      · exact hcareful
      · cases t with
        | handle pk => exact hcareful
        | _ =>
          have hopen : (s.ice d).closed = false := by simpa [Op.careful] using hcareful
          exact h.ice d hopen (hknown.imp (hF _) (hF _))
    refine hreads rfl ⟨hcomplete, hagent⟩ ?_
    rintro _ ⟨rfl, -⟩
    exact .inl hagent
  | storeAgent d =>
    refine hstores (fun x => { x with agent := true }) d rfl (fun _ _ => rfl)
      ⟨fun _ => .inl rfl, id, id, id⟩ ⟨hcomplete, trivial⟩ ?_
    rintro _ rfl
    rw [Fact.Holds, ice_onIce_self]
    exact .inl rfl
  | gatherCandidates d =>
    have hkept : Fact.Holds s (.kept d) := hF _ hneeds
    refine hstores (fun x => { x with gathering := true }) d rfl (fun hopen _ => ?_)
      ⟨id, id, id, fun _ => rfl⟩ ⟨hcomplete, trivial⟩ nofun
    exact hkept.resolve_right (by rw [hopen]; decide)
  | closeOfferReady d =>
    have hkept : Fact.Holds s (.kept d) := hF _ hneeds
    refine hstores (fun x => { x with offerReady := true }) d rfl (fun hopen _ => ?_)
      ⟨id, id, fun _ => rfl, id⟩ ⟨hcomplete, trivial⟩ nofun
    exact hkept.resolve_right (by rw [hopen]; decide)
  | storeClosed d =>
    refine hstores (fun x => { x with closed := true }) d rfl nofun
      ⟨fun _ => .inr rfl, fun _ => rfl, id, id⟩ ⟨hcomplete, trivial⟩ ?_
    rintro _ rfl
    rw [Fact.Holds, ice_onIce_self]
  | takeAgent d =>
    have hclosed : Fact.Holds s (.closed d) := hF _ hneeds
    refine hstores (fun x => { x with agent := false }) d rfl (fun hopen => ?_)
      ⟨fun _ => .inr hclosed, id, id, id⟩ ⟨hcomplete, trivial⟩ nofun
    cases hclosed.symm.trans hopen
  | awaitOffer d =>
    refine hreads rfl ⟨hcomplete, trivial⟩ ?_
    rintro _ ⟨rfl, hready⟩
    exact Ice.offerReady_of_select hready
  | takeActive d | activate d =>
    exact ⟨⟨h.crashed, h.dialer, h.ice⟩, fun φ hφ => hφ, ⟨hcomplete, trivial⟩, nofun⟩
  | nextCandidate d =>
    refine hreads rfl ⟨hcomplete, trivial⟩ ?_
    rintro _ ⟨rfl, hpresent⟩
    exact (Bool.and_eq_true _ _ ▸ hpresent).1
  | crash what => exact hneeds.elim

/-! ## Programs -/

section Programs

variable {t : Task} {F : Set Fact}

/-- Knowing `F`, the goroutine of a task may go on with a program. -/
abbrev Knows (setup : Setup) (t : Task) (p : Prog Unit) (F : Set Fact) : Prop :=
  p.Informed (lore setup t) F

theorem knows_iceClose (d : ℕ) : Knows setup t (iceClose d) F := by
  refine ⟨trivial, fun first _ => ?_⟩
  cases first with
  | false => trivial
  | true => exact ⟨.inr rfl, fun _ _ => trivial⟩

theorem knows_ack (d : ℕ) (pk : Packet) (hpk : pk.type = .handshakeAck) :
    Knows setup t (iceHandle pk d) F := by
  rw [iceHandle, hpk]
  refine ⟨trivial, fun closed _ => ?_⟩
  cases closed with
  | true => trivial
  | false =>
    refine ⟨trivial, fun agent _ => ?_⟩
    cases agent with
    | false => trivial
    | true => exact ⟨.inr ⟨rfl, rfl⟩, fun _ _ => trivial⟩

theorem knows_syn (d : ℕ) (pk : Packet) (hpk : pk.type = .handshakeSyn) :
    Knows setup t (iceHandle pk d) F := by
  rw [iceHandle, hpk]
  refine ⟨trivial, fun closed _ => ?_⟩
  cases closed with
  | true => trivial
  | false =>
    refine ⟨trivial, fun existingAgent _ => ?_⟩
    cases existingAgent with
    | true => exact knows_iceClose d
    | false =>
      refine ⟨trivial, fun fails _ => ?_⟩
      cases fails with
      | true => trivial
      | false => exact ⟨trivial, fun _ _ => ⟨.inr rfl, fun _ _ => trivial⟩⟩

section

variable {pk : Packet} (d : ℕ) (hcomplete : (Task.handle pk).complete setup)

include hcomplete

/-- A packet has the payload that its type promises. -/
theorem exists_offer (hpk : pk.type = .offer ∨ pk.type = .answer) :
    ∃ offer, pk.offer = some offer := by
  rw [← Option.isSome_iff_exists]
  obtain hpk | hpk := hpk <;> simp [Task.complete, hpk] at hcomplete <;> exact hcomplete.1

theorem knows_offer (hpk : pk.type = .offer ∨ pk.type = .answer) :
    Knows setup (.handle pk) (iceHandle pk d) F := by
  obtain ⟨offer, hoffer⟩ := exists_offer hcomplete hpk
  have hprogram : iceHandle pk d = if offer.candidate then do
      let agent ← useAgent d
      if agent then
        let fails ← outcome
        if fails then pure () else closeOfferReady d
      else crash .agent
      else pure () := by
    obtain hpk | hpk := hpk <;> rw [iceHandle, hpk, hoffer]
  rw [hprogram]
  split_ifs
  · refine ⟨.inl ⟨pk, rfl⟩, fun agent hagent => ?_⟩
    obtain rfl : agent = true := hagent.2
    refine ⟨trivial, fun fails _ => ?_⟩
    cases fails with
    | true => trivial
    | false => exact ⟨.inl (.inr ⟨rfl, rfl⟩), fun _ _ => trivial⟩
  · trivial

theorem knows_iceHandle : Knows setup (.handle pk) (iceHandle pk d) F := by
  cases hpk : pk.type with
  | unknown =>
    rw [iceHandle, hpk]
    trivial
  | handshakeSyn => exact knows_syn d pk hpk
  | handshakeAck => exact knows_ack d pk hpk
  | offer => exact knows_offer d hcomplete (.inl hpk)
  | answer => exact knows_offer d hcomplete (.inr hpk)

end

theorem knows_restart : Knows setup t restart F := by
  refine ⟨trivial, fun present _ => ?_⟩
  cases present with
  | false => trivial
  | true =>
    refine ⟨trivial, fun called hcalled => ?_⟩
    obtain rfl : called = true := hcalled.2
    trivial

theorem knows_sendOffer (hrelay : setup.relay) : Knows setup t (sendOffer setup) F := by
  rw [sendOffer, if_pos hrelay]
  trivial

theorem knows_wrrpHandle {pk : Packet} (d : ℕ) (hwrrp : pk.dialer = some .wrrp)
    (hcomplete : (Task.handle pk).complete setup) :
    Knows setup (.handle pk) (wrrpHandle setup pk d) F := by
  have hrelay : setup.relay := by simp_all [Task.complete]
  cases hpk : pk.type with
  | unknown =>
    rw [wrrpHandle, hpk]
    trivial
  | handshakeSyn =>
    rw [wrrpHandle, hpk]
    refine ⟨trivial, fun isActive _ => ?_⟩
    cases isActive with
    | false => trivial
    | true => exact knows_restart
  | handshakeAck =>
    rw [wrrpHandle, hpk]
    split_ifs
    · exact knows_sendOffer hrelay
    · trivial
  | offer =>
    obtain ⟨offer, hoffer⟩ := exists_offer hcomplete (.inl hpk)
    rw [wrrpHandle, hpk, hoffer]
    dsimp only
    split_ifs
    · exact ⟨trivial, fun _ _ => knows_sendOffer hrelay⟩
    · trivial
  | answer =>
    obtain ⟨offer, hoffer⟩ := exists_offer hcomplete (.inr hpk)
    rw [wrrpHandle, hpk, hoffer]
    dsimp only
    split_ifs
    · exact ⟨trivial, fun _ _ => trivial⟩
    · trivial

/-- The dialer of a complete task is there. -/
theorem knows_onDialer {type : TransportType} {method : ℕ → Prog Unit}
    (hmethod : t.complete setup → ∀ d F, Knows setup t (method d) F) :
    Knows setup t (onDialer type method) F := by
  refine ⟨trivial, fun dialer hdialer => ?_⟩
  obtain ⟨d, rfl⟩ := Option.isSome_iff_exists.mp hdialer.2
  exact hmethod hdialer.1 d _

theorem knows_handle (pk : Packet) : Knows setup (.handle pk) (handle setup pk) F := by
  rw [handle]
  split
  · exact knows_onDialer fun hcomplete d F => knows_iceHandle d hcomplete
  · next hwrrp => exact knows_onDialer fun hcomplete d F => knows_wrrpHandle d hwrrp hcomplete
  · trivial

theorem knows_icePrepare {rest : Prog Unit} (d : ℕ) (hrest : ∀ F, Knows setup t rest F) :
    Knows setup t (icePrepare setup rest d) F := by
  rw [icePrepare]
  split_ifs
  · refine ⟨trivial, fun agent _ => ?_⟩
    cases agent with
    | true => exact hrest _
    | false =>
      refine ⟨trivial, fun fails _ => ?_⟩
      cases fails with
      | true => trivial
      | false => exact ⟨trivial, fun _ _ => hrest _⟩
  · exact hrest F

theorem knows_iceDial (d : ℕ) : Knows setup t (iceDial d) F := by
  refine ⟨trivial, fun awaited _ => ?_⟩
  cases awaited with
  | timeout => trivial
  | closed => trivial
  | ready =>
    refine ⟨.inr (.inl (.inr ⟨rfl, rfl⟩)), fun agent hagent => ?_⟩
    obtain rfl : agent = true := hagent.2
    refine ⟨trivial, fun fails _ => ?_⟩
    cases fails with
    | true => trivial
    | false =>
      refine ⟨.inr (.inl (.inl (.inl (.inr ⟨rfl, rfl⟩)))), fun agent hagent => ?_⟩
      obtain rfl : agent = true := hagent.2
      refine ⟨trivial, fun fails _ => ?_⟩
      cases fails with
      | true => trivial
      | false => exact knows_iceClose d

theorem knows_discover (type : TransportType) :
    Knows setup (.discover type) (discover setup type) F := by
  cases type with
  | ice =>
    exact knows_onDialer fun _ d F => knows_icePrepare d fun F =>
      knows_onDialer fun _ d F => knows_iceDial d
  | wrrp =>
    refine knows_onDialer fun _ _ _ => knows_onDialer fun hrelay d F => ?_
    refine ⟨trivial, fun ready _ => ?_⟩
    cases ready with
    | false => trivial
    | true =>
      have hrelay : setup.relay = true := hrelay
      simp only [hrelay]
      trivial

theorem knows_closeProbe : Knows setup t closeProbe F := by
  refine ⟨trivial, fun dialer _ => ?_⟩
  cases dialer with
  | none => trivial
  | some d => exact knows_iceClose d

theorem knows_onCandidate (d : ℕ) : Knows setup t (onCandidate d) F := by
  refine ⟨trivial, fun present _ => ?_⟩
  cases present with
  | false => trivial
  | true =>
    refine ⟨trivial, fun closed _ => ?_⟩
    cases closed with
    | true => trivial
    | false =>
      refine ⟨.inr (.inr (.inl (.inr ⟨rfl, rfl⟩))), fun agent hagent => ?_⟩
      obtain rfl : agent = true := hagent.2
      trivial

theorem knows_program (t : Task) : Knows setup t (t.program setup) ∅ := by
  cases t with
  | handle pk => exact knows_handle pk
  | restart => exact knows_restart
  | discover type => exact knows_discover type
  | close => exact knows_closeProbe
  | candidate d => exact knows_onCandidate d
  | failed d => exact knows_iceClose d

end Programs

/-! ## The theorem -/

theorem inv_initial : Inv {} := ⟨rfl, fun _ _ => rfl, nofun⟩

/-- What is asked of a schedule. -/
def discipline (ι : Type) (setup : Setup) : Contract (ι × Task) Op Shared Choice Empty :=
  .ofFacts Inv (fun φ s => Fact.Holds s φ) (Careful setup)

/-- **Nil pointers.** In every schedule of any number of goroutines whose steps are careful, no nil
pointer is dereferenced. -/
theorem no_crash_along [DecidableEq ι] (setup : Setup)
    (schedule : List (Action (ι × Task) Choice Empty))
    (hcareful : (discipline ι setup).Along (workers ι setup) (Workers.idle {}) schedule) :
    ((workers ι setup).run (Workers.idle {}) schedule).shared.crashed = none := by
  refine (Workers.invariant_of_informed (W := workers ι setup) (L := fun i => lore setup i.2)
    (fun i => knows_program i.2) ?_ nofun inv_initial hcareful).crashed
  intro i op choice s F hneeds hF h hadmits
  obtain ⟨hcomplete, hcareful⟩ := (Bool.and_eq_true _ _).mp hadmits
  have hsound := sound_exec setup i.2 op choice s F hneeds hF h hcomplete hcareful
  exact ⟨hsound.inv, hsound.kept, hsound.allowed, hsound.taught⟩

instance (i : ι × Task) (op : Op) (choice : Choice) (s : Shared) :
    Decidable ((discipline ι setup).admits i op choice s) :=
  inferInstanceAs (Decidable (Careful setup i op choice s))

instance (e : Empty) (s : Shared) : Decidable ((discipline ι setup).admitsEnv e s) := nomatch e

namespace Schedules

abbrev Schedule := List (Action (Unit × Task) Choice Empty)

/-- A goroutine goes on. -/
def goes (t : Task) (choices : List Choice) : Schedule := choices.map (.advance ((), t))

/-- A goroutine begins, and nothing fails. -/
def begins (t : Task) (n : ℕ) : Schedule := .start ((), t) :: goes t (List.replicate n {})

def responder : Setup := { initiator := false, relay := false }

def initiator : Setup := { initiator := true, relay := false }

def syn : Task := .handle ⟨some .ice, .handshakeSyn, none⟩

/-- An offer with a candidate. -/
def offer : Task := .handle ⟨some .ice, .offer, some ⟨true, true⟩⟩

/-- A handshake, an offer and a candidate, after which `Dial` connects and closes its dialer; then
the probe is closed. -/
def connection : Schedule :=
  begins syn 7 ++ begins offer 5 ++ begins (.candidate 0) 4 ++ begins (.discover .ice) 2 ++
    goes (.discover .ice) ({ awaited := .ready } :: List.replicate 7 {}) ++ begins .close 3

/-- Schedules that dereference a nil pointer. -/
def crashes : List (Setup × Schedule × Nil) :=
  -- an offer without a payload
  [ (responder, begins (.handle ⟨some .ice, .offer, none⟩) 2, .payload),
    (responder, begins (.handle ⟨some .wrrp, .answer, none⟩) 2, .payload),
    -- an offer before the handshake
    (responder, begins offer 3, .agent),
    -- a packet, or a discovery, after `Close`
    (responder, begins .close 3 ++ begins syn 2, .dialer),
    (responder, begins .close 3 ++ begins (.discover .ice) 2, .dialer),
    -- `Dial` goes on with an offer although the dialer was closed
    (responder, begins syn 7 ++ begins offer 5 ++ begins (.discover .ice) 2 ++
      begins (.failed 0) 2 ++ goes (.discover .ice) [{ awaited := .ready }, {}, {}], .agent),
    -- the dialer is closed while a candidate is about to be sent
    (responder, begins syn 7 ++ begins (.candidate 0) 2 ++ begins (.failed 0) 2 ++
      goes (.candidate 0) [{}, {}], .agent),
    -- the probe is closed while it is about to be restarted
    (responder, begins .restart 1 ++ begins .close 1 ++ goes .restart [{}, {}], .constructor),
    -- the initiator has no relay
    (initiator, begins (.handle ⟨some .wrrp, .handshakeAck, none⟩) 2, .relay)]

end Schedules

/-- A connection in which every step is careful. -/
theorem no_crash_connection :
    ((workers Unit Schedules.responder).run (Workers.idle {})
      Schedules.connection).shared.crashed = none ∧
    (((workers Unit Schedules.responder).run (Workers.idle {})
      Schedules.connection).shared.ice 0).closed = true :=
  ⟨no_crash_along Schedules.responder Schedules.connection (by decide), by decide⟩

/-- Packets crash the agent. -/
theorem packets_crash :
    (Schedules.crashes.map fun r =>
      ((workers Unit r.1).run (Workers.idle {}) r.2.1).shared.crashed) =
        Schedules.crashes.map fun r => some r.2.2 := by
  decide

end Wireflow.Agent.Handling
