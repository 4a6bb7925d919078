/-
# The direct path

Within one discovery ICE and WRRP race for the probe. A direct path is to win even when it comes
late: for half a second after WRRP has connected, `discover` waits for ICE, and after that the
goroutine of ICE replaces the transport itself. It does so if it finds a flag set.

`direct_path_iff` says which interleavings end with the direct path. The handover is lost when the
goroutine of ICE reads the flag before it is set although `discover` has gone on without it, and
when it assigns its transport before `onSuccess` assigns the one of WRRP, which then stays.
-/

import Wireflow.Semantics.Steps
import Wireflow.Theorems.Node.Race

namespace Wireflow.Agent.Lifecycle

open Semantics Function Lifecycle

variable {ι : Type} [DecidableEq ι] {m : Lifecycle ι} {i : ι} {move : Move}
variable (cfg : Config)

/-! ## Steps -/

/-- Before it has sent its transport, a goroutine that succeeds changes nothing but its own
place. -/
theorem dialStep_early {type : TransportType}
    (hg : Early type ((m.slot i).goroutine type)) (hmove : move.succeeds) :
    Advanced type i m (m.dialStep cfg i type move) := by
  have hgoes : ∀ {m' : Lifecycle ι} {g : Dialing}, SameProbe m m' → m'.slot i = m.slot i →
      Early type g → Advanced type i m (m'.goes i type g) := by
    intro m' g hsame hslot hg
    refine ⟨⟨hsame.state, hsame.currentTransport, hsame.epoch, hsame.running⟩, .inl ⟨g, hg, ?_⟩⟩
    rw [goes, slot_setSlot, update_self, hslot]
  have hlate : ∀ {g : Dialing}, (m.slot i).goroutine type = g → Early type g := fun h => h ▸ hg
  apply dialStep_elim
  case stay =>
    exact ⟨⟨rfl, rfl, rfl, rfl⟩, .inl ⟨_, hg, by rw [update_eq_self]⟩⟩
  case look | lookAgain => exact fun d _ _ => hgoes ⟨rfl, rfl, rfl, rfl⟩ rfl trivial
  case prepare => exact fun d _ => hgoes ⟨rfl, rfl, rfl, rfl⟩ rfl trivial
  case connect => exact fun d _ _ _ => hgoes ⟨rfl, rfl, rfl, rfl⟩ rfl rfl
  case send =>
    intro t h
    exact ⟨⟨rfl, rfl, rfl, rfl⟩, .inr ⟨t, hlate h, by rw [slot_setSlot, update_self]⟩⟩
  case fail => rintro d err (⟨-, rfl⟩ | ⟨-, rfl, -⟩) <;> cases hmove
  case load | assign => exact fun t h _ => (hlate h).elim
  case succeed => exact fun t h => (hlate h).elim

theorem moved_goes (i : ι) (type : TransportType) (g : Dialing) :
    Moved type i m (m.goes i type g) := by
  have hslot : (m.goes i type g).slot i =
      { m.slot i with goroutine := update (m.slot i).goroutine type g } :=
    update_self ..
  refine ⟨⟨rfl, rfl, rfl, rfl⟩, ?_, ?_, ?_, ?_, fun other hne => ?_, fun other hne => ?_⟩ <;>
    rw [hslot]
  exact update_of_ne hne ..

theorem goroutine_goes (type : TransportType) (g : Dialing) :
    ((m.goes i type g).slot i).goroutine type = g := by
  rw [goes, slot_setSlot, update_self]
  exact update_self ..

theorem dialStep_rest {type : TransportType} (hg : (m.slot i).goroutine type = .rest) :
    m.dialStep cfg i type move = m := by
  simp only [dialStep, hg]

/-! ### The goroutine of `Start` -/

/-- A transport has been brought closer to its assignment, and nothing else has happened. -/
def Delivered (t : Transport) (i : ι) (m m' : Lifecycle ι) : Prop :=
  m'.state = m.state ∧ m'.epoch = m.epoch ∧
    ∃ next, m'.slot i = { m.slot i with main := next } ∧
      (Pending t next ∨ next = .assigned t ∧ m'.currentTransport = some t)

variable {t : Transport}

theorem pending_mainStep (move : Move) (h : Pending t (m.slot i).main)
    (hepoch : m.epoch = (m.slot i).epoch) :
    Delivered t i m (m.mainStep cfg i move) := by
  have hstay : Delivered t i m m := ⟨rfl, rfl, _, rfl, .inl h⟩
  obtain hmain | hmain | hmain := h <;> cases move <;>
    simp only [mainStep, hmain] <;> try exact hstay
  · rw [if_pos hepoch]
    exact ⟨rfl, rfl, _, update_self .., .inl (.inr (.inl rfl))⟩
  · exact ⟨rfl, rfl, _, update_self .., .inl (.inr (.inr rfl))⟩
  · exact ⟨rfl, rfl, _, update_self .., .inr ⟨rfl, rfl⟩⟩

theorem Begins.mainStep (hcfg : cfg.enableWrrp) (h : Begins i m) :
    OnCourse i (m.mainStep cfg i move) := by
  have hstay : OnCourse i m := .begins h
  obtain ⟨hmain, hrest, hstate⟩ := h
  obtain ⟨hmain, hrunning⟩ | hmain | ⟨hmain, hepoch⟩ := hmain <;>
    cases move <;> simp only [mainStep, hmain] <;> try exact hstay
  · simp only [hrunning]
    refine .begins ⟨.inr (.inl ?_), ?_, hstate⟩ <;> simp [hrest]
  · refine .begins ⟨.inr (.inr ?_), ?_, hstate⟩ <;> simp [setSlot, hrest]
  · have hlive : Live (m.transition cfg.fake .probing).state := by
      rw [state_transition]
      exact live_probing hstate
    refine .races ⟨?_, ?_, hlive, ?_, ?_, ?_⟩ <;>
      simp only [slot_setSlot, update_self, spawned]
    · exact hepoch
    · intro type
      refine .inl ⟨?_, rfl⟩
      simp [hcfg, Early]

theorem Races.mainStep (hcfg : cfg.enableWrrp) (h : Races i m) :
    OnCourse i (m.mainStep cfg i move) := by
  have hstay : OnCourse i m := .races h
  obtain ⟨hmain, hepoch, hlive, herrs, hwon, hreports⟩ := h
  cases move <;> simp only [mainStep, hmain] <;> try exact hstay
  · cases hresult : (m.slot i).result with
    | nil => exact hstay
    | cons t rest =>
      have hice := hreports .ice
      have hwrrp := hreports .wrrp
      simp only [Reports, hresult, List.map_cons] at hice hwrrp
      cases ht : t.type with
      | ice =>
        rw [ht] at hice hwrrp
        refine .direct t ⟨ht, .inl ⟨.inl ?_, hlive, ?_⟩, ?_, ?_, ?_⟩ <;>
          simp only [slot_setSlot, update_self]
        · simp [afterResult, ht]
        · exact hepoch
        · exact hwon
        · exact (hice.resolve_left (by simp)).1
        · exact hwrrp.imp And.left fun h => h.1.rest_of_wrrp
      | wrrp =>
        rw [ht] at hice hwrrp
        have hlate := hwrrp.resolve_left (by simp)
        refine .waits t ⟨ht, ?_, ?_, hlive, ?_, ?_, ?_, ?_⟩ <;>
          simp only [slot_setSlot, update_self]
        · simp [afterResult, ht, hcfg]
        · exact hepoch
        · exact hwon
        · simpa [Reports] using hice
        · exact hlate.1.rest_of_wrrp
        · simpa using hlate.2
  · simp only [herrs]
    exact hstay

theorem Waits.mainStep (h : Waits t i m)
    (htimely : timely i m (.main i move)) : OnCourse i (m.mainStep cfg i move) := by
  have hstay : OnCourse i m := .waits t h
  obtain ⟨ht, hmain, hepoch, hlive, hwon, hice, hwrrp, hcount⟩ := h
  cases move <;> simp only [mainStep, hmain] <;> try exact hstay
  · cases hresult : (m.slot i).result with
    | nil => exact hstay
    | cons t' rest =>
      rw [hresult] at hcount
      have ht' : t'.type = .ice := by
        cases h : t'.type with
        | ice => rfl
        | wrrp => simp [h] at hcount
      have hlate : Late .ice ((m.slot i).goroutine .ice) :=
        hice.elim (fun h => absurd h.2 (by simp [hresult, ht'])) And.left
      refine .direct t' ⟨ht', .inl ⟨.inl ?_, hlive, ?_⟩, ?_, ?_, .inr ?_⟩ <;>
        simp only [slot_setSlot, update_self]
      exacts [hepoch, hwon, hlate, hwrrp]
  · have hne : (m.slot i).goroutine .ice ≠ .rest := by
      intro hrest
      simp [timely, hmain, hrest] at htimely
    refine .expired t ⟨ht, ?_, ?_, hlive, ?_, ?_, ?_⟩ <;>
      simp only [slot_goto, update_self]
    exacts [hepoch, hwon, hice.unread hne, hwrrp]

theorem Direct.mainStep (h : Direct t i m) :
    OnCourse i (m.mainStep cfg i move) := by
  have hstay : OnCourse i m := .direct t h
  obtain ⟨ht, hmain, hwon, hice, hwrrp⟩ := h
  obtain ⟨hpending, hlive, hepoch⟩ | ⟨hmain, hlive, htransport⟩ | ⟨hmain, hstate, htransport⟩ :=
    hmain
  · obtain ⟨hstate, hepoch', next, hslot, hnext⟩ :=
      pending_mainStep cfg move hpending hepoch
    refine .direct t ⟨ht, ?_, ?_, ?_, ?_⟩ <;> simp only [hslot, hstate, hepoch']
    exacts [hnext.imp (fun h => ⟨h, hlive, hepoch⟩) fun h => .inl ⟨h.1, hlive, h.2⟩, hwon, hice,
      hwrrp]
  · cases move <;> simp only [Lifecycle.mainStep, hmain] <;> try exact hstay
    have hready : (m.transition cfg.fake (Node.readyState t.type)).state = .iceReady := by
      rw [state_transition, ht]
      exact hlive.iceReady
    refine .direct t ⟨ht, .inr (.inr ⟨?_, hready, htransport⟩), ?_, ?_, ?_⟩ <;>
      simp only [slot_goto, update_self]
    exacts [hwon, hice, hwrrp]
  · simp only [Lifecycle.mainStep, hmain]
    exact hstay

theorem Expired.mainStep (h : Expired t i m) :
    OnCourse i (m.mainStep cfg i move) := by
  have hstay : OnCourse i m := .expired t h
  obtain ⟨ht, hmain, hepoch, hlive, hwon, hice, hwrrp⟩ := h
  cases move <;> simp only [mainStep, hmain] <;> try exact hstay
  refine .relayed t ⟨ht, .inl ?_, ?_, hlive, ?_, .inl ?_, ?_⟩ <;>
    simp only [slot_setSlot, update_self]
  exacts [hepoch, hice, hwrrp]

theorem Relayed.mainStep (h : Relayed t i m) :
    OnCourse i (m.mainStep cfg i move) := by
  obtain ⟨ht, hmain, hepoch, hlive, hwon, hice, hwrrp⟩ := h
  obtain ⟨hstate, hepoch', next, hslot, hnext | ⟨hnext, -⟩⟩ :=
    pending_mainStep cfg move hmain hepoch
  · refine .relayed t ⟨ht, ?_, ?_, ?_, ?_, ?_, ?_⟩ <;> simp only [hslot, hstate, hepoch']
    exacts [hnext, hepoch, hlive, hwon, hice, hwrrp]
  · refine .settles ⟨.inl ⟨t, ht, ?_⟩, ?_, ?_, .inl ?_, ?_⟩ <;> simp only [hslot, hstate]
    exacts [hnext, hlive, hwon, hice, hwrrp]

theorem Settles.mainStep (h : Settles i m) :
    OnCourse i (m.mainStep cfg i move) := by
  have hstay : OnCourse i m := .settles h
  obtain ⟨hmain, hlive, hwon, hice, hwrrp⟩ := h
  obtain ⟨t, ht, hmain⟩ | hmain := hmain
  · cases move <;> simp only [Lifecycle.mainStep, hmain] <;> try exact hstay
    have hstate : (m.transition cfg.fake (Node.readyState t.type)).state =
        if .wrrpReady ∈ allowedTransitions m.state then .wrrpReady else m.state := by
      rw [state_transition, ht]
      rfl
    -- a late WRRP does not take the state away from ICE
    have hready : m.state = .iceReady →
        (m.transition cfg.fake (Node.readyState t.type)).state = .iceReady := by
      intro hready
      rw [hstate, hready]
      rfl
    refine .settles ⟨.inr ?_, hstate ▸ hlive.wrrpReady, ?_, ?_, ?_⟩ <;>
      simp only [slot_goto, update_self]
    exacts [hwon, hice.imp id (And.imp id (Or.imp id (And.imp id hready))), hwrrp]
  · simp only [Lifecycle.mainStep, hmain]
    exact hstay

theorem OnCourse.mainStep (hcfg : cfg.enableWrrp) (h : OnCourse i m)
    (htimely : timely i m (.main i move)) : OnCourse i (m.mainStep cfg i move) := by
  cases h with
  | begins h | races h => exact h.mainStep cfg hcfg
  | waits t h => exact h.mainStep cfg htimely
  | direct t h | expired t h | relayed t h | settles h => exact h.mainStep cfg

/-! ### The goroutines of the dialers -/

theorem OnCourse.wrrpStep (h : OnCourse i m)
    (hmove : move.succeeds) : OnCourse i (m.dialStep cfg i .wrrp move) := by
  have hstay : (m.slot i).goroutine .wrrp = .rest → OnCourse i (m.dialStep cfg i .wrrp move) :=
    fun hrest => (dialStep_rest cfg hrest).symm ▸ h
  cases h with
  | begins h => exact hstay (h.rest .wrrp)
  | races h =>
    obtain ⟨hearly, -⟩ | ⟨hlate, -⟩ := h.reports .wrrp
    · have hstep := dialStep_early cfg hearly hmove
      exact .races (hstep.moved.races h (hstep.reports hearly (h.reports .wrrp)))
    · exact hstay hlate.rest_of_wrrp
  | waits t h | expired t h | relayed t h | settles h => exact hstay h.wrrp
  | direct t h =>
    obtain hearly | hrest := h.wrrp
    · have hstep := dialStep_early cfg hearly hmove
      exact .direct t (hstep.moved.direct h (hstep.moved.goroutine .ice (by decide) ▸ h.ice)
        (hstep.goroutine.imp id fun ⟨_, _, hsent⟩ => hsent))
    · exact hstay hrest

theorem dialStep_loading (move : Move) (hg : (m.slot i).goroutine .ice = .loading t) :
    move ≠ .go ∧ m.dialStep cfg i .ice move = m ∨ move = .go ∧ m.dialStep cfg i .ice move =
      m.goes i .ice (if (m.slot i).wrrpWon then .upgrading t else .rest) := by
  cases move <;> simp [dialStep, hg]

theorem dialStep_upgrading (move : Move) (hg : (m.slot i).goroutine .ice = .upgrading t) :
    move ≠ .go ∧ m.dialStep cfg i .ice move = m ∨ move = .go ∧ m.dialStep cfg i .ice move =
      { m with currentTransport := some t }.goes i .ice (.upgraded t) := by
  cases move <;> simp [dialStep, hg]

theorem dialStep_upgraded (move : Move) (hg : (m.slot i).goroutine .ice = .upgraded t) :
    m.dialStep cfg i .ice move = m ∨ m.dialStep cfg i .ice move =
      (m.transition cfg.fake .iceReady).goes i .ice .rest := by
  cases move <;> simp [dialStep, hg]

/-- ICE reads a flag that is not set. -/
theorem late_iceStep (move : Move) (hice : Late .ice ((m.slot i).goroutine .ice))
    (hwon : (m.slot i).wrrpWon = false) :
    ∃ g, Late .ice g ∧ m.dialStep cfg i .ice move = m.goes i .ice g := by
  have hself : m.goes i .ice ((m.slot i).goroutine .ice) = m := by
    rw [goes, update_eq_self]
    exact congrArg (fun slot => { m with slot := slot }) (update_eq_self i m.slot)
  cases hg : (m.slot i).goroutine .ice with
  | rest => exact ⟨_, hice, (dialStep_rest cfg hg).trans hself.symm⟩
  | loading t =>
    obtain ⟨-, hstep⟩ | ⟨-, hstep⟩ := dialStep_loading cfg move hg
    · exact ⟨_, hice, hstep.trans hself.symm⟩
    · exact ⟨.rest, trivial, by rw [hstep, hwon]; rfl⟩
  | _ =>
    rw [hg] at hice
    cases hice

/-- While `discover` waits for ICE, its goroutine sends a transport and reads a flag that is not
set. -/
theorem reports_iceStep (hmove : move.succeeds)
    (hice : Reports (m.slot i) .ice) (hwon : (m.slot i).wrrpWon = false) :
    Moved .ice i m (m.dialStep cfg i .ice move) ∧
      Reports ((m.dialStep cfg i .ice move).slot i) .ice := by
  have hreports := hice
  obtain ⟨hearly, -⟩ | ⟨hlate, hcount⟩ := hice
  · have hstep := dialStep_early cfg hearly hmove
    exact ⟨hstep.moved, hstep.reports hearly hreports⟩
  · obtain ⟨g, hg, hstep⟩ := late_iceStep cfg move hlate hwon
    rw [hstep]
    refine ⟨moved_goes i .ice g, .inr ⟨?_, ?_⟩⟩
    · rw [goroutine_goes]
      exact hg
    · rw [goes, slot_setSlot, update_self]
      exact hcount

/-- A goroutine that is not about to read the flag, or is not scheduled, has not read it after
that. -/
theorem unread_iceStep (hmove : move.succeeds)
    (hice : Unread ((m.slot i).goroutine .ice))
    (hgo : ∀ t, (m.slot i).goroutine .ice = .loading t → move ≠ .go) :
    Moved .ice i m (m.dialStep cfg i .ice move) ∧
      Unread (((m.dialStep cfg i .ice move).slot i).goroutine .ice) := by
  have hunread := hice
  obtain hearly | ⟨t, hg, ht⟩ := hice
  · have hstep := dialStep_early cfg hearly hmove
    exact ⟨hstep.moved, hstep.goroutine.imp id fun ⟨t, ht, hsent⟩ => ⟨t, hsent, ht⟩⟩
  · obtain ⟨-, hstep⟩ | ⟨hmove, -⟩ := dialStep_loading cfg move hg
    · rw [hstep]
      exact ⟨.refl .ice i m, hunread⟩
    · exact absurd hmove (hgo t hg)

/-- ICE reads a flag that is set. -/
theorem upgrades_iceStep (hmove : move.succeeds)
    (hwon : (m.slot i).wrrpWon = true) (hice : Upgrades ((m.slot i).goroutine .ice))
    (hgo : ∀ t, (m.slot i).goroutine .ice = .upgrading t → move ≠ .go) :
    Moved .ice i m (m.dialStep cfg i .ice move) ∧
      Upgrades (((m.dialStep cfg i .ice move).slot i).goroutine .ice) := by
  have hupgrades := hice
  obtain (hearly | ⟨t, hg, ht⟩) | ⟨t, hg, ht⟩ := hice
  · have hgo' : ∀ t, (m.slot i).goroutine .ice = .loading t → move ≠ .go := by
      intro t hg
      rw [hg] at hearly
      cases hearly
    exact (unread_iceStep cfg hmove (.inl hearly) hgo').imp id .inl
  · obtain ⟨-, hstep⟩ | ⟨-, hstep⟩ := dialStep_loading cfg move hg <;> rw [hstep]
    · exact ⟨.refl .ice i m, hupgrades⟩
    · refine ⟨moved_goes i .ice _, .inr ⟨t, ?_, ht⟩⟩
      rw [goroutine_goes, hwon]
      rfl
  · obtain ⟨-, hstep⟩ | ⟨hmove, -⟩ := dialStep_upgrading cfg move hg
    · rw [hstep]
      exact ⟨.refl .ice i m, hupgrades⟩
    · exact absurd hmove (hgo t hg)

/-- The late upgrade. -/
theorem Settles.iceStep (hmove : move.succeeds) (h : Settles i m) :
    OnCourse i (m.dialStep cfg i .ice move) := by
  have hstay : OnCourse i m := .settles h
  obtain ⟨hmain, hlive, hwon, hice, hwrrp⟩ := h
  have hne : TransportType.wrrp ≠ .ice := by decide
  obtain hup | ⟨htransport, ⟨t, hg⟩ | ⟨hg, -⟩⟩ := hice
  · by_cases hgo : ∀ t, (m.slot i).goroutine .ice = .upgrading t → move ≠ .go
    · obtain ⟨hmoved, hup'⟩ := upgrades_iceStep cfg hmove hwon hup hgo
      refine .settles ⟨?_, hmoved.state ▸ hlive, hmoved.wrrpWon.trans hwon, .inl hup',
        (hmoved.goroutine _ hne).trans hwrrp⟩
      rw [hmoved.main]
      exact hmain
    · push Not at hgo
      obtain ⟨t, hg, rfl⟩ := hgo
      have ht : t.type = .ice := by
        simpa [Upgrades, Unread, hg, Early] using hup
      have hstep := ((dialStep_upgrading cfg .go hg).resolve_left fun h => h.1 rfl).2
      have hmoved := moved_goes (m := { m with currentTransport := some t }) i .ice
        (.upgraded t)
      rw [hstep]
      refine .settles ⟨?_, hlive, hmoved.wrrpWon.trans hwon,
        .inr ⟨congrArg some ht, .inl ⟨t, goroutine_goes .ice _⟩⟩,
        (hmoved.goroutine _ hne).trans hwrrp⟩
      rw [hmoved.main]
      exact hmain
  · obtain hstep | hstep := dialStep_upgraded cfg move hg <;> rw [hstep]
    · exact hstay
    · have hmoved := moved_goes (m := m.transition cfg.fake .iceReady) i .ice .rest
      have hready : ((m.transition cfg.fake .iceReady).goes i .ice .rest).state = .iceReady :=
        hmoved.state.trans ((state_transition ..).trans hlive.iceReady)
      refine .settles ⟨?_, .inl hready, hmoved.wrrpWon.trans hwon,
        .inr ⟨htransport, .inr ⟨goroutine_goes .ice _, hready⟩⟩,
        (hmoved.goroutine _ hne).trans hwrrp⟩
      rw [hmoved.main]
      exact hmain
  · exact (dialStep_rest cfg hg).symm ▸ hstay

theorem OnCourse.iceStep (h : OnCourse i m) (hmove : move.succeeds)
    (htimely : timely i m (.dial i .ice move)) : OnCourse i (m.dialStep cfg i .ice move) := by
  have hne : TransportType.wrrp ≠ .ice := by decide
  cases h with
  | begins h =>
    rw [dialStep_rest cfg (h.rest .ice)]
    exact .begins h
  | races h =>
    obtain ⟨hmoved, hown⟩ := reports_iceStep cfg hmove (h.reports .ice) h.won
    exact .races (hmoved.races h hown)
  | waits t h =>
    obtain ⟨hmoved, hown⟩ := reports_iceStep cfg hmove h.ice h.won
    exact .waits t
      { type := h.type
        main := hmoved.main.trans h.main
        epoch := hmoved.epoch.trans (h.epoch.trans hmoved.slotEpoch.symm)
        live := hmoved.state ▸ h.live
        won := hmoved.wrrpWon.trans h.won
        ice := hown
        wrrp := (hmoved.goroutine _ hne).trans h.wrrp
        count := (hmoved.count _ hne).trans h.count }
  | direct t h =>
    obtain ⟨g, hg, hstep⟩ := late_iceStep cfg move h.ice h.won
    rw [hstep]
    have hmoved := moved_goes (m := m) i .ice g
    refine .direct t (hmoved.direct h ?_ ?_)
    · rw [goroutine_goes]
      exact hg
    · rw [hmoved.goroutine _ hne]
      exact h.wrrp
  | expired t h =>
    have hgo : ∀ t, (m.slot i).goroutine .ice = .loading t → move ≠ .go := by
      rintro t hg rfl
      simp [timely, h.main, hg] at htimely
    obtain ⟨hmoved, hunread⟩ := unread_iceStep cfg hmove h.ice hgo
    exact .expired t
      { type := h.type
        main := hmoved.main.trans h.main
        epoch := hmoved.epoch.trans (h.epoch.trans hmoved.slotEpoch.symm)
        live := hmoved.state ▸ h.live
        won := hmoved.wrrpWon.trans h.won
        ice := hunread
        wrrp := (hmoved.goroutine _ hne).trans h.wrrp }
  | relayed t h =>
    have hgo : ∀ t, (m.slot i).goroutine .ice = .upgrading t → move ≠ .go := by
      rintro t hg rfl
      obtain hmain | hmain | hmain := h.main <;> simp [timely, hmain, hg] at htimely
    obtain ⟨hmoved, hup⟩ := upgrades_iceStep cfg hmove h.won h.ice hgo
    exact .relayed t
      { type := h.type
        main := hmoved.main ▸ h.main
        epoch := hmoved.epoch.trans (h.epoch.trans hmoved.slotEpoch.symm)
        live := hmoved.state ▸ h.live
        won := hmoved.wrrpWon.trans h.won
        ice := hup
        wrrp := (hmoved.goroutine _ hne).trans h.wrrp }
  | settles h => exact h.iceStep cfg hmove

variable {a : Act ι}

theorem OnCourse.step (hcfg : cfg.enableWrrp) (h : OnCourse i m) (ha : InRace i a)
    (htimely : timely i m a) : OnCourse i (m.step cfg a) := by
  cases a with
  | main j move =>
    obtain rfl : j = i := ha
    exact h.mainStep cfg hcfg htimely
  | dial j type move =>
    obtain ⟨rfl, hmove⟩ := ha
    cases type with
    | ice => exact h.iceStep cfg hmove htimely
    | wrrp => exact h.wrrpStep cfg hmove
  | _ => cases ha

/-! ## The handover is missed -/

/-- A step that is not timely gives WRRP the last word. -/
theorem OnCourse.misses (h : OnCourse i m) (ha : InRace i a)
    (hlate : timely i m a = false) : Missed i (m.step cfg a) := by
  have hne : TransportType.wrrp ≠ .ice := by decide
  have hupgrade : ∀ t, (m.slot i).goroutine .ice = .upgrading t →
      (∀ t, (m.slot i).main ≠ .assigned t) → (m.slot i).main ≠ .idle →
      Missed i (m.dialStep cfg i .ice .go) := by
    intro t hg hassigned hidle
    obtain ⟨w, h⟩ := h.of_upgrading hg hassigned hidle
    rw [((dialStep_upgrading cfg .go hg).resolve_left fun h => h.1 rfl).2]
    have hmoved := moved_goes (m := { m with currentTransport := some t }) i .ice
      (.upgraded t)
    exact
      { main := .inl ⟨w, h.type, h.epoch.trans hmoved.slotEpoch.symm, .inr (hmoved.main ▸ h.main)⟩
        ice := .inr ⟨t, goroutine_goes .ice _⟩
        wrrp := (hmoved.goroutine _ hne).trans h.wrrp }
  unfold timely at hlate
  split at hlate
  · -- the timer wins although ICE has sent its transport, and has read the flag
    next t hmain hg =>
    obtain rfl := ha
    obtain ⟨ht, -, hepoch, -, -, -, hwrrp, -⟩ := h.of_grace hmain
    simp only [Lifecycle.step, Lifecycle.mainStep, hmain]
    refine ⟨.inl ⟨t, ht, ?_, .inl ?_⟩, .inl ?_, ?_⟩ <;>
      simp only [slot_goto, update_self]
    exacts [hepoch, hg, hwrrp]
  · -- the flag is read just before it is set
    next j t t' hmain hg =>
    obtain ⟨rfl, -⟩ := ha
    obtain ⟨ht, -, hepoch, -, hwon, -, hwrrp⟩ := h.of_overtime hmain
    have hstep := ((dialStep_loading cfg .go hg).resolve_left fun h => h.1 rfl).2
    have hmoved := moved_goes (m := m) j .ice .rest
    rw [hwon] at hstep
    rw [Lifecycle.step, hstep]
    exact
      { main := .inl ⟨t, ht, hepoch.trans hmoved.slotEpoch.symm, .inl (hmoved.main.trans hmain)⟩
        ice := .inl (goroutine_goes .ice _)
        wrrp := (hmoved.goroutine _ hne).trans hwrrp }
  -- the late transport is assigned before that of WRRP
  iterate 3
    next hmain hg =>
      obtain ⟨rfl, -⟩ := ha
      exact hupgrade _ hg (by simp [hmain]) (by simp [hmain])
  · cases hlate

theorem Missed.mainStep (h : Missed i m) :
    Missed i (m.mainStep cfg i move) := by
  have hstay := h
  obtain ⟨⟨t, ht, hepoch, hmain | hmain⟩ | ⟨htransport, ⟨t, hmain⟩ | hmain⟩, hice, hwrrp⟩ := h
  · cases move <;> simp only [Lifecycle.mainStep, hmain] <;> try exact hstay
    refine ⟨.inl ⟨t, ht, ?_, .inr (.inl ?_)⟩, ?_, ?_⟩ <;>
      simp only [slot_setSlot, update_self]
    exacts [hepoch, hice, hwrrp]
  · obtain ⟨-, hepoch', next, hslot, hnext⟩ := pending_mainStep cfg move hmain hepoch
    refine ⟨?_, ?_, ?_⟩ <;> simp only [hslot]
    · obtain hnext | ⟨rfl, htransport⟩ := hnext
      · exact .inl ⟨t, ht, hepoch'.trans hepoch, .inr hnext⟩
      · exact .inr ⟨by rw [htransport, Option.map_some, ht], .inl ⟨t, rfl⟩⟩
    exacts [hice, hwrrp]
  · cases move <;> simp only [Lifecycle.mainStep, hmain] <;> try exact hstay
    refine ⟨.inr ⟨htransport, .inr ?_⟩, ?_, ?_⟩ <;>
      simp only [slot_goto, update_self]
    exacts [hice, hwrrp]
  · simp only [Lifecycle.mainStep, hmain]
    exact hstay

theorem Missed.step (h : Missed i m) (ha : InRace i a) :
    Missed i (m.step cfg a) := by
  cases a with
  | main j move =>
    obtain rfl : j = i := ha
    exact h.mainStep cfg
  | dial j type move =>
    obtain ⟨rfl, -⟩ := ha
    cases type with
    | wrrp =>
      rw [step, dialStep_rest cfg h.wrrp]
      exact h
    | ice =>
      rw [step]
      obtain hg | ⟨t, hg⟩ := h.ice
      · rw [dialStep_rest cfg hg]
        exact h
      · obtain hstep | hstep := dialStep_upgraded cfg move hg <;> rw [hstep]
        · exact h
        · have hmoved := moved_goes (m := m.transition cfg.fake .iceReady) j .ice .rest
          refine ⟨?_, .inl (goroutine_goes .ice _),
            (hmoved.goroutine _ (by decide)).trans h.wrrp⟩
          rw [hmoved.main, hmoved.slotEpoch]
          exact h.main
  | _ => cases ha

/-! ## The theorem -/

/-- Nothing leaves the state `closed`. -/
theorem closed_step (a : Act ι) (ha : InRace i a) (hstate : m.state = .closed) :
    (m.step cfg a).state = .closed := by
  have htransition : ∀ target, (m.transition cfg.fake target).state = .closed := by
    intro target
    rw [state_transition, hstate]
    simp [allowedTransitions]
  cases a with
  | main j move =>
    apply mainStep_elim (motive := fun m' => m'.state = .closed) <;> intros <;>
      first | exact hstate | exact htransition _
  | dial j type move =>
    apply dialStep_elim (motive := fun m' => m'.state = .closed) <;> intros <;>
      first | exact hstate | exact htransition _
  | _ => cases ha

/-- **Direct path.** A discovery in which both dialers succeed ends with the direct path if and
only if the state machine is not closed and no step misses the handover. -/
theorem direct_path_iff (cfg : Config) (m : Lifecycle ι) (i : ι) (acts : List (Act ι))
    (hcfg : cfg.enableWrrp) (hstart : m.slot i = { main := .starting }) (hfree : m.running = false)
    (hrace : ∀ a ∈ acts, InRace i a) (hend : ((m.run cfg acts).slot i).AtRest) :
    Connected (m.run cfg acts) ↔
      m.state ≠ .closed ∧ AlongSteps (step cfg) (fun m a => timely i m a) m acts := by
  have hacts : AlongSteps (step cfg) (fun _ a => InRace i a) m acts :=
    alongSteps_of_forall (fun a ha _ => hrace a ha) m
  by_cases hclosed : m.state = .closed
  · have hstate : (m.run cfg acts).state = .closed :=
      (hacts.invariant (I := fun m => m.state = .closed)
        (fun m a hm ha => ⟨trivial, closed_step cfg a ha hm⟩) hclosed).2
    simp [Connected, hstate, hclosed]
  · have hbegins : OnCourse i m :=
      .begins ⟨.inl ⟨by rw [hstart], hfree⟩, fun type => by rw [hstart], hclosed⟩
    rw [and_iff_right hclosed]
    exact AlongSteps.iff_of_doom (I := OnCourse i) (D := Missed i)
      (fun m a h ha htimely => h.step cfg hcfg ha htimely)
      (fun m a h ha hlate => h.misses cfg ha (Bool.not_eq_true _ ▸ hlate))
      (fun m a h ha => h.step cfg ha) (fun m h => h.connected) (fun m h => h.not_connected)
      hbegins hacts hend

namespace Example

open Act

def both : Config := { enableWrrp := true, initiator := true, fake := "240.0.0.1:1" }

/-- `Start` has been called. -/
def called : Lifecycle Unit := { slot := fun _ => { main := .starting } }

/-- WRRP connects, and `discover` waits for ICE. -/
def relayFirst : List (Act Unit) :=
  mains () 3 ++ dials () .ice 3 ++ dials () .wrrp 3 ++
    [.dial () .wrrp (.dialed (.ok "198.51.100.1:6266")), .dial () .wrrp .go, .main () .result]

/-- ICE connects, sends its transport and reads the flag. -/
def iceConnects : List (Act Unit) :=
  .dial () .ice (.dialed (.ok "192.0.2.1:51820")) :: dials () .ice 2

/-- ICE connects when `onSuccess` is done. -/
def upgrade : List (Act Unit) :=
  relayFirst ++ [.main () .timeout] ++ mains () 5 ++ iceConnects ++ dials () .ice 2

/-- The timer fires, ICE reads the flag, and the flag is set. -/
def unnoticed : List (Act Unit) := relayFirst ++ [.main () .timeout] ++ iceConnects ++ mains () 5

/-- ICE is there, but the timer fires as well and is preferred. -/
def unheard : List (Act Unit) := relayFirst ++ iceConnects ++ [.main () .timeout] ++ mains () 5

/-- The upgrade is done before `onSuccess` begins. -/
def overtaking : List (Act Unit) :=
  relayFirst ++ [.main () .timeout] ++ mains () 1 ++ iceConnects ++ dials () .ice 2 ++ mains () 4

end Example

/-- An upgrade that comes after `onSuccess` is made. -/
theorem direct_path_upgrade :
    Connected (Example.called.run Example.both Example.upgrade) :=
  (direct_path_iff Example.both Example.called () Example.upgrade rfl rfl rfl (by decide)
    (by decide)).mpr (by decide)

/-- Three interleavings of one discovery in which both dialers succeed, and WRRP stays. -/
theorem direct_path_missed :
    (∀ acts ∈ [Example.unnoticed, Example.unheard, Example.overtaking],
      (∀ a ∈ acts, InRace () a) ∧
        ((Example.called.run Example.both acts).slot ()).AtRest ∧
        (Example.called.run Example.both acts).currentTransport =
          some ⟨.wrrp, "198.51.100.1:6266"⟩) ∧
      (Example.called.run Example.both Example.unnoticed).state = .wrrpReady ∧
      (Example.called.run Example.both Example.overtaking).state = .iceReady := by
  decide

end Wireflow.Agent.Lifecycle
