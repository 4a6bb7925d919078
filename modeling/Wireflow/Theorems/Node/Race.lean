/-
# The race of ICE and WRRP

How far a discovery is in which both dialers succeed. As long as it is `OnCourse`, ICE can still
win; what each phase demands is listed once, so that the steps of the goroutines can be followed
phase by phase. In a run that has `Missed` the handover, WRRP has the last word.
-/

import Wireflow.Agent.Lifecycle

namespace Wireflow.Agent.Lifecycle

open Function

variable {ι : Type} {m : Lifecycle ι} {i : ι}

/-! ## The notions -/

/-- Neither `Prepare` nor `Dial` fails. -/
def Move.succeeds : Move → Bool
  | .fail | .dialed (.error _) => false
  | _ => true

/-- An action of the discovery in a slot, whose dialers succeed. -/
def InRace (i : ι) : Act ι → Prop
  | .main j _ => j = i
  | .dial j _ move => j = i ∧ move.succeeds
  | _ => False

instance [DecidableEq ι] (i : ι) : DecidablePred (InRace i)
  | .main j _ => inferInstanceAs (Decidable (j = i))
  | .dial j _ move => inferInstanceAs (Decidable (j = i ∧ move.succeeds))
  | .call .. | .fire .. | .send _ | .stop _ | .syn _ | .agentFails _ | .lateClose _ | .register
  | .tick _ => inferInstanceAs (Decidable False)

/-- The handover is not missed: `discover` does not give up on a goroutine that has read the flag,
the flag is not read while it is about to be set, and the late transport is not assigned before
that of WRRP. -/
def timely (i : ι) (m : Lifecycle ι) (a : Act ι) : Bool :=
  match a, (m.slot i).main, (m.slot i).goroutine .ice with
  | .main _ .timeout, .grace _, .rest => false
  | .dial _ .ice .go, .overtime _, .loading _ => false
  | .dial _ .ice .go, .returned _, .upgrading _ => false
  | .dial _ .ice .go, .checked _, .upgrading _ => false
  | .dial _ .ice .go, .succeeding _, .upgrading _ => false
  | _, _, _ => true

/-- The probe has the direct path. -/
def Connected (m : Lifecycle ι) : Prop :=
  m.currentTransport.map Transport.type = some .ice ∧ m.state = .iceReady

/-! ## States -/

/-- From here a direct path is accepted. -/
def Live (s : PeerState) : Prop := s = .iceReady ∨ .iceReady ∈ allowedTransitions s

variable {s : PeerState}

theorem live_probing (h : s ≠ .closed) :
    Live (if .probing ∈ allowedTransitions s then .probing else s) := by
  unfold Live
  cases s <;> simp_all [allowedTransitions]

theorem Live.wrrpReady (h : Live s) :
    Live (if .wrrpReady ∈ allowedTransitions s then .wrrpReady else s) := by
  unfold Live at h ⊢
  cases s <;> simp_all [allowedTransitions]

theorem Live.iceReady (h : Live s) :
    (if .iceReady ∈ allowedTransitions s then .iceReady else s) = PeerState.iceReady := by
  unfold Live at h
  cases s <;> simp_all [allowedTransitions]

/-! ## On course -/

/-- A goroutine that has not yet sent its transport. -/
def Early (type : TransportType) : Dialing → Prop
  | .preparing | .prepares _ | .prepared | .dialing _ => True
  | .sending t => t.type = type
  | _ => False

/-- A goroutine that has sent its transport and leaves the probe alone. -/
def Late : TransportType → Dialing → Prop
  | _, .rest => True
  | .ice, .loading t => t.type = .ice
  | _, _ => False

variable {t : Transport}

theorem Late.rest_of_wrrp {g : Dialing} (h : Late .wrrp g) : g = .rest := by
  cases g <;> first | rfl | cases h

theorem Early.not_late {type : TransportType} {g : Dialing} (h : Early type g) : ¬Late type g := by
  cases type <;> cases g <;> first | exact id | cases h

/-- What `discover` has heard of a dialer is what its goroutine has sent. -/
def Reports (s : Slot) (type : TransportType) : Prop :=
  Early type (s.goroutine type) ∧ (s.result.map Transport.type).count type = 0 ∨
    Late type (s.goroutine type) ∧ (s.result.map Transport.type).count type = 1

/-- `discover` has returned a transport, and `onSuccess` has not assigned it. -/
def Pending (t : Transport) (main : Main) : Prop :=
  main = .returned (.ok t) ∨ main = .checked (.ok t) ∨ main = .succeeding t

/-- The goroutine of ICE has not read the flag. -/
def Unread (g : Dialing) : Prop := Early .ice g ∨ ∃ t, g = .loading t ∧ t.type = .ice

/-- The goroutine of ICE will assign its transport, if it finds the flag set. -/
def Upgrades (g : Dialing) : Prop := Unread g ∨ ∃ t, g = .upgrading t ∧ t.type = .ice

/-- The discovery has not begun. -/
structure Begins (i : ι) (m : Lifecycle ι) : Prop where
  main : (m.slot i).main = .starting ∧ m.running = false ∨ (m.slot i).main = .started ∨
    (m.slot i).main = .probing ∧ m.epoch = (m.slot i).epoch
  rest : ∀ type, (m.slot i).goroutine type = .rest
  state : m.state ≠ .closed

/-- `discover` waits for the first transport. -/
structure Races (i : ι) (m : Lifecycle ι) : Prop where
  main : (m.slot i).main = .racing 0
  epoch : m.epoch = (m.slot i).epoch
  live : Live m.state
  errs : (m.slot i).errs = []
  won : (m.slot i).wrrpWon = false
  reports : ∀ type, Reports (m.slot i) type

/-- WRRP has connected, and `discover` waits for ICE. -/
structure Waits (t : Transport) (i : ι) (m : Lifecycle ι) : Prop where
  type : t.type = .wrrp
  main : (m.slot i).main = .grace t
  epoch : m.epoch = (m.slot i).epoch
  live : Live m.state
  won : (m.slot i).wrrpWon = false
  ice : Reports (m.slot i) .ice
  wrrp : (m.slot i).goroutine .wrrp = .rest
  count : ((m.slot i).result.map Transport.type).count .wrrp = 0

/-- ICE has won. -/
structure Direct (t : Transport) (i : ι) (m : Lifecycle ι) : Prop where
  type : t.type = .ice
  main : Pending t (m.slot i).main ∧ Live m.state ∧ m.epoch = (m.slot i).epoch ∨
    (m.slot i).main = .assigned t ∧ Live m.state ∧ m.currentTransport = some t ∨
    (m.slot i).main = .idle ∧ m.state = .iceReady ∧ m.currentTransport = some t
  won : (m.slot i).wrrpWon = false
  ice : Late .ice ((m.slot i).goroutine .ice)
  wrrp : Early .wrrp ((m.slot i).goroutine .wrrp) ∨ (m.slot i).goroutine .wrrp = .rest

/-- `discover` goes on without ICE. -/
structure Expired (t : Transport) (i : ι) (m : Lifecycle ι) : Prop where
  type : t.type = .wrrp
  main : (m.slot i).main = .overtime t
  epoch : m.epoch = (m.slot i).epoch
  live : Live m.state
  won : (m.slot i).wrrpWon = false
  ice : Unread ((m.slot i).goroutine .ice)
  wrrp : (m.slot i).goroutine .wrrp = .rest

/-- WRRP has won for now. -/
structure Relayed (t : Transport) (i : ι) (m : Lifecycle ι) : Prop where
  type : t.type = .wrrp
  main : Pending t (m.slot i).main
  epoch : m.epoch = (m.slot i).epoch
  live : Live m.state
  won : (m.slot i).wrrpWon = true
  ice : Upgrades ((m.slot i).goroutine .ice)
  wrrp : (m.slot i).goroutine .wrrp = .rest

/-- The transport of WRRP is assigned, and that of ICE comes after it. -/
structure Settles (i : ι) (m : Lifecycle ι) : Prop where
  main : (∃ t, t.type = .wrrp ∧ (m.slot i).main = .assigned t) ∨ (m.slot i).main = .idle
  live : Live m.state
  won : (m.slot i).wrrpWon = true
  ice : Upgrades ((m.slot i).goroutine .ice) ∨
    m.currentTransport.map Transport.type = some .ice ∧
      ((∃ t, (m.slot i).goroutine .ice = .upgraded t) ∨
        (m.slot i).goroutine .ice = .rest ∧ m.state = .iceReady)
  wrrp : (m.slot i).goroutine .wrrp = .rest

/-- The race may still be won by ICE, and will be if no step misses the handover. -/
inductive OnCourse (i : ι) (m : Lifecycle ι) : Prop
  | begins (h : Begins i m)
  | races (h : Races i m)
  | waits (t : Transport) (h : Waits t i m)
  | direct (t : Transport) (h : Direct t i m)
  | expired (t : Transport) (h : Expired t i m)
  | relayed (t : Transport) (h : Relayed t i m)
  | settles (h : Settles i m)

/-- ICE is done, and WRRP has the last word. -/
structure Missed (i : ι) (m : Lifecycle ι) : Prop where
  main : (∃ t, t.type = .wrrp ∧ m.epoch = (m.slot i).epoch ∧
      ((m.slot i).main = .overtime t ∨ Pending t (m.slot i).main)) ∨
    m.currentTransport.map Transport.type = some .wrrp ∧
      ((∃ t, (m.slot i).main = .assigned t) ∨ (m.slot i).main = .idle)
  ice : (m.slot i).goroutine .ice = .rest ∨ ∃ t, (m.slot i).goroutine .ice = .upgraded t
  wrrp : (m.slot i).goroutine .wrrp = .rest

/-- The goroutine of ICE has not read the flag, or it is done. -/
theorem Reports.unread {s : Slot} (h : Reports s .ice) (hne : s.goroutine .ice ≠ .rest) :
    Unread (s.goroutine .ice) := by
  obtain ⟨hearly, -⟩ | ⟨hlate, -⟩ := h
  · exact .inl hearly
  · cases hg : s.goroutine .ice with
    | rest => exact absurd hg hne
    | loading t =>
      rw [hg] at hlate
      exact .inr ⟨t, rfl, hlate⟩
    | _ =>
      rw [hg] at hlate
      cases hlate

theorem OnCourse.connected (h : OnCourse i m) (hrest : (m.slot i).AtRest) : Connected m := by
  obtain ⟨hidle, hgoroutines⟩ := hrest
  cases h with
  | direct t h =>
    obtain ⟨hmain, -⟩ | ⟨hmain, -⟩ | ⟨-, hstate, htransport⟩ := h.main
    · simp [Pending, hidle] at hmain
    · simp [hidle] at hmain
    · exact ⟨by rw [htransport, Option.map_some, h.type], hstate⟩
  | settles h =>
    have hice := h.ice
    rw [hgoroutines] at hice
    obtain hice | ⟨htransport, ⟨t, ht⟩ | ⟨-, hstate⟩⟩ := hice
    · simp [Upgrades, Unread, Early] at hice
    · cases ht
    · exact ⟨htransport, hstate⟩
  | begins h | races h | waits t h | expired t h => simpa [hidle] using h.main
  | relayed t h => simpa [Pending, hidle] using h.main

theorem Missed.not_connected (h : Missed i m) (hrest : (m.slot i).AtRest) : ¬Connected m := by
  rintro ⟨hice, -⟩
  obtain ⟨t, -, -, hmain | hmain⟩ | ⟨hwrrp, -⟩ := h.main
  · rw [hrest.1] at hmain
    cases hmain
  · simp [Pending, hrest.1] at hmain
  · rw [hwrrp] at hice
    cases hice

theorem OnCourse.of_grace (h : OnCourse i m) (hmain : (m.slot i).main = .grace t) :
    Waits t i m := by
  cases h with
  | waits t' h =>
    obtain rfl : t' = t := by simpa [h.main] using hmain
    exact h
  | begins h | races h | expired t h | settles h => simpa [hmain] using h.main
  | direct t h | relayed t h => simpa [hmain, Pending] using h.main

theorem OnCourse.of_overtime (h : OnCourse i m) (hmain : (m.slot i).main = .overtime t) :
    Expired t i m := by
  cases h with
  | expired t' h =>
    obtain rfl : t' = t := by simpa [h.main] using hmain
    exact h
  | begins h | races h | waits t h | settles h => simpa [hmain] using h.main
  | direct t h | relayed t h => simpa [hmain, Pending] using h.main

/-- Before the transport of WRRP is assigned, the goroutine of ICE only upgrades if WRRP has won. -/
theorem OnCourse.of_upgrading (h : OnCourse i m) (hg : (m.slot i).goroutine .ice = .upgrading t)
    (hassigned : ∀ t, (m.slot i).main ≠ .assigned t) (hidle : (m.slot i).main ≠ .idle) :
    ∃ t, Relayed t i m := by
  cases h with
  | relayed t h => exact ⟨t, h⟩
  | begins h => simpa [hg] using h.rest .ice
  | races h => simpa [Reports, hg, Early, Late] using h.reports .ice
  | waits t h => simpa [Reports, hg, Early, Late] using h.ice
  | direct t h => simpa [hg, Late] using h.ice
  | expired t h => simpa [Unread, hg, Early] using h.ice
  | settles h =>
    obtain ⟨t, -, hmain⟩ | hmain := h.main
    exacts [absurd hmain (hassigned t), absurd hmain hidle]

/-! ## Goroutines that keep to themselves -/

/-- What the race looks at besides its slot. -/
structure SameProbe (m m' : Lifecycle ι) : Prop where
  state : m'.state = m.state
  currentTransport : m'.currentTransport = m.currentTransport
  epoch : m'.epoch = m.epoch
  running : m'.running = m.running

/-- The goroutine of a dialer has gone on, and may have sent its transport. -/
def Advanced (type : TransportType) (i : ι) (m m' : Lifecycle ι) : Prop :=
  SameProbe m m' ∧
    ((∃ g, Early type g ∧ m'.slot i =
        { m.slot i with goroutine := update (m.slot i).goroutine type g }) ∨
      ∃ t, t.type = type ∧ m'.slot i =
        { m.slot i with
          goroutine := update (m.slot i).goroutine type (afterSend t type)
          result := (m.slot i).result ++ [t] })

/-- The goroutine of a dialer has changed nothing but its own place, and may have sent
something. -/
structure Moved (type : TransportType) (i : ι) (m m' : Lifecycle ι) : Prop extends
    SameProbe m m' where
  main : (m'.slot i).main = (m.slot i).main
  slotEpoch : (m'.slot i).epoch = (m.slot i).epoch
  errs : (m'.slot i).errs = (m.slot i).errs
  wrrpWon : (m'.slot i).wrrpWon = (m.slot i).wrrpWon
  goroutine : ∀ other, other ≠ type →
    (m'.slot i).goroutine other = (m.slot i).goroutine other
  count : ∀ other, other ≠ type → ((m'.slot i).result.map Transport.type).count other =
    ((m.slot i).result.map Transport.type).count other

theorem Moved.refl (type : TransportType) (i : ι) (m : Lifecycle ι) : Moved type i m m :=
  ⟨⟨rfl, rfl, rfl, rfl⟩, rfl, rfl, rfl, rfl, fun _ _ => rfl, fun _ _ => rfl⟩

section Advanced

variable {type : TransportType} {m' : Lifecycle ι}

theorem Advanced.moved (h : Advanced type i m m') : Moved type i m m' := by
  obtain ⟨hsame, ⟨g, hg, hslot⟩ | ⟨t, ht, hslot⟩⟩ := h <;>
    refine ⟨hsame, ?_, ?_, ?_, ?_, fun other hne => ?_, fun other hne => ?_⟩ <;> rw [hslot]
  · exact update_of_ne hne ..
  · exact update_of_ne hne ..
  · rw [List.map_append, List.count_append, List.map_singleton, ht, List.count_singleton]
    simp [Ne.symm hne]

theorem Advanced.goroutine (h : Advanced type i m m') :
    Early type ((m'.slot i).goroutine type) ∨ ∃ t, t.type = type ∧
      (m'.slot i).goroutine type = afterSend t type := by
  obtain ⟨-, ⟨g, hg, hslot⟩ | ⟨t, ht, hslot⟩⟩ := h <;> rw [hslot] <;>
    simp only [update_self]
  · exact .inl hg
  · exact .inr ⟨t, ht, rfl⟩

/-- `discover` hears of a transport when it is sent. -/
theorem Advanced.reports (h : Advanced type i m m')
    (hearly : Early type ((m.slot i).goroutine type)) (hreports : Reports (m.slot i) type) :
    Reports (m'.slot i) type := by
  have hcount := (hreports.resolve_right fun hlate => hearly.not_late hlate.1).2
  obtain ⟨-, ⟨g, hg, hslot⟩ | ⟨t, ht, hslot⟩⟩ := h <;> rw [hslot] <;>
    simp only [Reports, update_self]
  · exact .inl ⟨hg, hcount⟩
  · refine .inr ⟨by cases type <;> first | exact ht | trivial, ?_⟩
    rw [List.map_append, List.count_append, hcount, List.map_singleton, ht,
      List.count_singleton_self]

/-- Of other transports it hears nothing. -/
theorem Moved.reports (h : Moved type i m m') {other : TransportType} (hne : other ≠ type)
    (hreports : Reports (m.slot i) other) : Reports (m'.slot i) other := by
  rw [Reports, h.goroutine other hne, h.count other hne]
  exact hreports

end Advanced

/-- Who wins is not changed by a goroutine that has only changed its own place. -/
theorem Moved.direct {type : TransportType} {m' : Lifecycle ι} (h : Moved type i m m')
    (hm : Direct t i m) (hice : Late .ice ((m'.slot i).goroutine .ice))
    (hwrrp : Early .wrrp ((m'.slot i).goroutine .wrrp) ∨ (m'.slot i).goroutine .wrrp = .rest) :
    Direct t i m' where
  type := hm.type
  main := by
    rw [h.main, h.state, h.epoch, h.slotEpoch, h.currentTransport]
    exact hm.main
  won := h.wrrpWon.trans hm.won
  ice := hice
  wrrp := hwrrp

theorem Moved.races {type : TransportType} {m' : Lifecycle ι} (h : Moved type i m m')
    (hm : Races i m) (hown : Reports (m'.slot i) type) : Races i m' where
  main := h.main.trans hm.main
  epoch := h.epoch.trans (hm.epoch.trans h.slotEpoch.symm)
  live := h.state ▸ hm.live
  errs := h.errs.trans hm.errs
  won := h.wrrpWon.trans hm.won
  reports other := by
    by_cases hne : other = type
    · exact hne ▸ hown
    · exact h.reports hne (hm.reports other)

end Wireflow.Agent.Lifecycle
