/-
# Which connection the relay uses

A frame should go to the connection of its id that has registered last among the open ones. The
table has one place for each id (two with QUIC), and whoever ends empties it. `table_current_iff`
says which events keep the table current: a TCP registration where no QUIC connection is in the
table, and the loss of a connection that is not the newest or that leaves none of its id behind,
with a handler that ends when no other connection of the id is open.
-/

import Mathlib.Data.List.Find
import Wireflow.Relay.Protocol
import Wireflow.Semantics.Steps

namespace Wireflow.Relay

open Semantics Function SessionManager Option List

namespace Hub

variable {κ : Type} {r : Hub κ} {conn c : κ} {id : UInt64} {e : Event κ}

/-! ## The notions -/

/-- The open connection of an id that has registered last. -/
def newest (r : Hub κ) (id : UInt64) : Option κ :=
  r.opened.find? fun c => r.handlers c = some id

/-- Frames go to the newest open connections, and to none only if there is none. -/
def Current [DecidableEq κ] (r : Hub κ) : Prop := ∀ id, r.reached id = r.newest id

/-- No other connection of the id is open. -/
def Alone (r : Hub κ) (conn : κ) (id : UInt64) : Prop :=
  ∀ c ∈ r.opened, r.handlers c = some id → c = conn

/-- The events that the table is made for. -/
def Safe (r : Hub κ) : Event κ → Prop
  | .registered .tcp conn id => r.handlers conn = none → r.manager.quicConns id = none
  | .registered .quic _ _ => True
  | .dropped conn => ∀ id, r.newest id = some conn → r.Alone conn id
  | .ended conn => ∀ id, r.handlers conn = some id → r.Alone conn id

/-! ## The table -/

/-- The entries of the table and the open connections are registered, with the right ids. -/
structure Known (r : Hub κ) : Prop where
  quic : ∀ id c, r.manager.quicConns id = some c → r.handlers c = some id
  session : ∀ id s, r.manager.sessions id = some s → r.handlers s.stream = some id
  opened : ∀ c ∈ r.opened, r.handlers c ≠ none

theorem handlers_of_relay {route : Route κ} (hr : Known r) (h : r.manager.relay id = .ok route) :
    r.handlers route.conn = some id := by
  unfold relay at h
  split at h
  · rename_i hquic
    cases h
    exact hr.quic id _ hquic
  · rename_i hsession
    cases h
    exact hr.session id _ hsession
  · cases h

theorem quicConns_registerConn (kind : Kind) (m : SessionManager κ) (i : UInt64) :
    (m.registerConn kind id conn).quicConns i =
      if i = id ∧ kind = .quic then some conn else m.quicConns i := by
  cases kind <;> by_cases hi : i = id <;>
    simp [SessionManager.registerConn, SessionManager.register, SessionManager.registerQUIC, hi]

theorem sessions_registerConn (kind : Kind) (m : SessionManager κ) (i : UInt64) :
    (m.registerConn kind id conn).sessions i =
      if i = id then some ⟨id, conn, kind⟩ else m.sessions i := by
  cases kind <;> by_cases hi : i = id <;>
    simp [SessionManager.registerConn, SessionManager.register, SessionManager.registerQUIC, hi]

theorem relay_congr {m m' : SessionManager κ} (hquic : m'.quicConns id = m.quicConns id)
    (hsession : m'.sessions id = m.sessions id) : m'.relay id = m.relay id := by
  unfold relay
  rw [hquic, hsession]

theorem ne_of_handlers (hnew : r.handlers conn = none) {i : UInt64}
    (hc : r.handlers c = some i) : c ≠ conn := by
  rintro rfl
  rw [hnew] at hc
  cases hc

theorem newest_eq_some (h : r.newest id = some c) : c ∈ r.opened ∧ r.handlers c = some id :=
  ⟨mem_of_find?_eq_some h, by simpa using find?_some h⟩

theorem newest_eq_none_iff :
    r.newest id = none ↔ ∀ c ∈ r.opened, r.handlers c ≠ some id := by
  simp [newest]

variable [DecidableEq κ]

theorem reached_eq_some_iff :
    r.reached id = some c ↔
      c ∈ r.opened ∧ ∃ route, r.manager.relay id = .ok route ∧ route.conn = c := by
  unfold reached
  cases r.manager.relay id with
  | error err => simp
  | ok route =>
    by_cases hopen : route.conn ∈ r.opened
    · simp only [if_pos hopen, some.injEq, Except.ok.injEq, exists_eq_left']
      constructor
      · rintro rfl
        exact ⟨hopen, rfl⟩
      · exact And.right
    · simp only [if_neg hopen, reduceCtorEq, Except.ok.injEq, exists_eq_left', false_iff, not_and]
      rintro hc rfl
      exact hopen hc

variable {r' : Hub κ}

/-- Two hubs that route an id alike and have the same registered connections open for it reach
the same connection. -/
theorem reached_congr (hr : Known r) (hrelay : r'.manager.relay id = r.manager.relay id)
    (hopened : ∀ c, r.handlers c = some id → (c ∈ r'.opened ↔ c ∈ r.opened)) :
    r'.reached id = r.reached id := by
  ext c
  rw [reached_eq_some_iff, reached_eq_some_iff, hrelay]
  refine and_congr_left ?_
  rintro ⟨route, hroute, rfl⟩
  exact hopened _ (handlers_of_relay hr hroute)

/-! ## Registrations -/

section

variable {kind : Kind} (hr : Known r) (hnew : r.handlers conn = none)

include hnew

theorem step_registered :
    r.step (.registered kind conn id) =
      { manager := r.manager.registerConn kind id conn
        handlers := update r.handlers conn (some id)
        opened := conn :: r.opened } := by
  simp [step, hnew]

include hr

theorem known_registered :
    Known (r.step (.registered kind conn id)) := by
  have hother : ∀ c i, r.handlers c = some i →
      update r.handlers conn (some id) c = some i := by
    intro c i hc
    rw [update_of_ne (ne_of_handlers hnew hc), hc]
  rw [step_registered hnew]
  constructor
  · intro i c hc
    dsimp only at hc ⊢
    rw [quicConns_registerConn] at hc
    split_ifs at hc with hi
    · rw [← some.inj hc, update_self, hi.1]
    · exact hother c i (hr.quic i c hc)
  · intro i s hs
    dsimp only at hs ⊢
    rw [sessions_registerConn] at hs
    split_ifs at hs with hi
    · rw [← some.inj hs, update_self, hi]
    · exact hother _ i (hr.session i s hs)
  · intro c hc
    dsimp only at hc ⊢
    rcases mem_cons.mp hc with rfl | hc
    · simp
    · obtain ⟨i, hi⟩ := ne_none_iff_exists'.mp (hr.opened c hc)
      rw [hother c i hi]
      exact some_ne_none i

/-- A registration is the newest for its id, and changes nothing for the others. -/
theorem newest_registered (i : UInt64) :
    (r.step (.registered kind conn id)).newest i = if i = id then some conn else r.newest i := by
  rw [step_registered hnew]
  split_ifs with hi
  · simp [newest, hi]
  · have hold : ∀ c ∈ r.opened,
        decide (update r.handlers conn (some id) c = some i) =
          decide (r.handlers c = some i) := by
      intro c hc
      have hne : c ≠ conn := by
        rintro rfl
        exact hr.opened c hc hnew
      rw [update_of_ne hne]
    have hnot : ¬ (some id = some i) := fun h => hi (some.inj h).symm
    rw [newest, newest, find?_cons_of_neg (by simpa using hnot)]
    exact find?_congr hold

theorem reached_registered_of_ne {i : UInt64} (hi : i ≠ id) :
    (r.step (.registered kind conn id)).reached i = r.reached i := by
  rw [step_registered hnew]
  apply reached_congr hr
  · apply relay_congr
    · simp [quicConns_registerConn, hi]
    · simp [sessions_registerConn, hi]
  · intro c hc
    simp [ne_of_handlers hnew hc]

/-- The connection is used at once, unless it comes over TCP and finds one of QUIC. -/
theorem reached_registered_iff :
    (r.step (.registered kind conn id)).reached id = some conn ↔
      (kind = .tcp → r.manager.quicConns id = none) := by
  rw [step_registered hnew, reached_eq_some_iff]
  simp only [mem_cons, true_or, true_and, relay, quicConns_registerConn,
    sessions_registerConn, if_true]
  cases kind with
  | quic => simp [Route.conn]
  | tcp =>
    cases hquic : r.manager.quicConns id with
    | none => simp [Route.conn]
    | some q =>
      -- the connection in the table is another one, since this one is new
      have hne : q ≠ conn := ne_of_handlers hnew (hr.quic id q hquic)
      simp [Route.conn, hne]

theorem current_registered_iff (hcurrent : Current r) :
    Current (r.step (.registered kind conn id)) ↔
      (kind = .tcp → r.manager.quicConns id = none) := by
  rw [← reached_registered_iff hr hnew]
  constructor
  · intro h
    rw [h id, newest_registered hr hnew, if_pos rfl]
  · intro h i
    rw [newest_registered hr hnew]
    split_ifs with hi
    · rw [hi]
      exact h
    · rw [reached_registered_of_ne hr hnew hi]
      exact hcurrent i

end

/-! ## Connections that go -/

/-- What is found first is found first without an element that is not found. -/
theorem find?_filter_ne {p q : κ → Bool} (hpq : ∀ c, c ≠ conn → q c = p c) {l : List κ}
    (hfirst : l.find? p ≠ some conn) : (l.filter (· ≠ conn)).find? q = l.find? p := by
  induction l with
  | nil => rfl
  | cons a l ih =>
    by_cases ha : a = conn
    · subst ha
      have hnot : ¬ p a = true := fun hp => hfirst (find?_cons_of_pos hp)
      rw [find?_cons_of_neg hnot] at hfirst ⊢
      rw [filter_cons_of_neg (by simp)]
      exact ih hfirst
    · rw [filter_cons_of_pos (by simpa using ha)]
      cases hp : p a with
      | true => rw [find?_cons_of_pos hp, find?_cons_of_pos ((hpq a ha).trans hp)]
      | false =>
        have hnot : ¬ p a = true := by simp [hp]
        have hnot' : ¬ q a = true := by simp [hpq a ha, hp]
        rw [find?_cons_of_neg hnot] at hfirst ⊢
        rw [find?_cons_of_neg hnot']
        exact ih hfirst

/-- A hub without a connection. -/
structure Without (conn : κ) (r r' : Hub κ) : Prop where
  opened : r'.opened = r.opened.filter (· ≠ conn)
  handlers : ∀ c, c ≠ conn → r'.handlers c = r.handlers c

theorem Without.mem_opened (h : Without conn r r') :
    c ∈ r'.opened ↔ c ∈ r.opened ∧ c ≠ conn := by
  simp [h.opened]

/-- The newest connection of an id is the same, unless it was the one that went. -/
theorem Without.newest_of_ne (h : Without conn r r') (hnewest : r.newest id ≠ some conn) :
    r'.newest id = r.newest id := by
  unfold newest at hnewest ⊢
  rw [h.opened]
  refine find?_filter_ne (fun c hc => ?_) hnewest
  rw [h.handlers c hc]

theorem Without.newest_eq_none_iff (h : Without conn r r') :
    r'.newest id = none ↔ r.Alone conn id := by
  rw [Hub.newest_eq_none_iff]
  constructor
  · intro hnone c hc hid
    by_contra hne
    exact hnone c (h.mem_opened.mpr ⟨hc, hne⟩) ((h.handlers c hne).trans hid)
  · intro halone c hc hid
    obtain ⟨hc, hne⟩ := h.mem_opened.mp hc
    exact hne (halone c hc ((h.handlers c hne).symm.trans hid))

theorem without_dropped : Without conn r (r.step (.dropped conn)) :=
  ⟨rfl, fun _ _ => rfl⟩

theorem known_dropped (hr : Known r) : Known (r.step (.dropped conn)) where
  quic := hr.quic
  session := hr.session
  opened c hc := hr.opened c (without_dropped.mem_opened.mp hc).1

/-- The loss of a connection hides those of its id that are older. -/
theorem current_dropped_iff (hcurrent : Current r) :
    Current (r.step (.dropped conn)) ↔ Safe r (.dropped conn) := by
  -- the table is as it was: only the connection that went is not reached any more
  have hreached : ∀ i, r.newest i ≠ some conn →
      (r.step (.dropped conn)).reached i = r.reached i := by
    intro i hnewest
    ext c
    rw [reached_eq_some_iff, reached_eq_some_iff, without_dropped.mem_opened]
    constructor
    · exact fun h => ⟨h.1.1, h.2⟩
    · intro h
      refine ⟨⟨h.1, ?_⟩, h.2⟩
      rintro rfl
      exact hnewest ((hcurrent i).symm.trans (reached_eq_some_iff.mpr h))
  have hlost : ∀ i, r.newest i = some conn → (r.step (.dropped conn)).reached i = none := by
    intro i hnewest
    obtain ⟨-, route, hroute, hconn⟩ := reached_eq_some_iff.mp ((hcurrent i).trans hnewest)
    rw [eq_none_iff_forall_ne_some]
    intro c hc
    obtain ⟨hopen, route', hroute', rfl⟩ := reached_eq_some_iff.mp hc
    have hsame : route = route' := Except.ok.inj (hroute.symm.trans hroute')
    exact (without_dropped.mem_opened.mp hopen).2 (hsame ▸ hconn)
  constructor
  · intro h i hnewest
    rw [← without_dropped.newest_eq_none_iff, ← h i]
    exact hlost i hnewest
  · intro hsafe i
    by_cases hnewest : r.newest i = some conn
    · rw [hlost i hnewest]
      exact (without_dropped.newest_eq_none_iff.mpr (hsafe i hnewest)).symm
    · rw [hreached i hnewest, without_dropped.newest_of_ne hnewest]
      exact hcurrent i

/-! ## Handlers that end -/

section

variable (hid : r.handlers conn = some id)

include hid

theorem step_ended :
    r.step (.ended conn) =
      { manager := r.manager.unregister id
        handlers := update r.handlers conn none
        opened := r.opened.filter (· ≠ conn) } := by
  simp [step, hid]

theorem without_ended : Without conn r (r.step (.ended conn)) := by
  rw [step_ended hid]
  exact ⟨rfl, fun c hc => update_of_ne hc _ _⟩

theorem known_ended (hr : Known r) : Known (r.step (.ended conn)) := by
  have hother : ∀ c i, i ≠ id → r.handlers c = some i →
      update r.handlers conn none c = some i := by
    intro c i hi hc
    have hne : c ≠ conn := by
      rintro rfl
      exact hi (some.inj (hc.symm.trans hid))
    rw [update_of_ne hne, hc]
  constructor
  · rw [step_ended hid]
    intro i c hc
    by_cases hi : i = id
    · simp [unregister, hi] at hc
    · refine hother c i hi (hr.quic i c ?_)
      simpa [unregister, hi] using hc
  · rw [step_ended hid]
    intro i s hs
    by_cases hi : i = id
    · simp [unregister, hi] at hs
    · refine hother _ i hi (hr.session i s ?_)
      simpa [unregister, hi] using hs
  · intro c hc
    obtain ⟨hc, hne⟩ := (without_ended hid).mem_opened.mp hc
    rw [(without_ended hid).handlers c hne]
    exact hr.opened c hc

/-- The entries of the id are gone, whoever they belonged to. -/
theorem current_ended_iff (hr : Known r) (hcurrent : Current r) :
    Current (r.step (.ended conn)) ↔ r.Alone conn id := by
  have hgone : (r.step (.ended conn)).reached id = none := by
    rw [step_ended hid]
    simp [reached, relay, unregister]
  have hreached : ∀ i, i ≠ id → (r.step (.ended conn)).reached i = r.reached i := by
    intro i hi
    apply reached_congr hr
    · rw [step_ended hid]
      apply relay_congr <;> simp [unregister, hi]
    · intro c hc
      rw [(without_ended hid).mem_opened, and_iff_left_iff_imp]
      rintro - rfl
      exact hi (some.inj (hc.symm.trans hid))
  have hnewest : ∀ i, i ≠ id → r.newest i ≠ some conn := by
    intro i hi hnewest
    exact hi (some.inj ((newest_eq_some hnewest).2.symm.trans hid))
  constructor
  · intro h
    rw [← (without_ended hid).newest_eq_none_iff, ← h id]
    exact hgone
  · intro halone i
    by_cases hi : i = id
    · rw [hi, hgone]
      exact ((without_ended hid).newest_eq_none_iff.mpr halone).symm
    · rw [hreached i hi, (without_ended hid).newest_of_ne (hnewest i hi)]
      exact hcurrent i

end

/-! ## Runs -/

/-- **One event.** The table stays current if and only if the event is safe. -/
theorem current_step_iff (hr : Known r) (hcurrent : Current r) :
    Current (r.step e) ↔ Safe r e := by
  cases e with
  | registered kind conn id =>
    by_cases hnew : r.handlers conn = none
    · rw [current_registered_iff hr hnew hcurrent]
      cases kind <;> simp [Safe, hnew]
    · have hstep : r.step (.registered kind conn id) = r :=
        if_pos (isSome_iff_ne_none.mpr hnew)
      rw [hstep]
      cases kind <;> simp [Safe, hnew, hcurrent]
  | dropped conn => exact current_dropped_iff hcurrent
  | ended conn =>
    cases hid : r.handlers conn with
    | none =>
      have hstep : r.step (.ended conn) = r := by simp [step, hid]
      rw [hstep]
      simp [Safe, hid, hcurrent]
    | some id =>
      rw [current_ended_iff hid hr hcurrent]
      simp [Safe, hid]

theorem known_step (hr : Known r) : Known (r.step e) := by
  cases e with
  | registered kind conn id =>
    by_cases hnew : r.handlers conn = none
    · exact known_registered hr hnew
    · rwa [show r.step (.registered kind conn id) = r from
        if_pos (isSome_iff_ne_none.mpr hnew)]
  | dropped conn => exact known_dropped hr
  | ended conn =>
    cases hid : r.handlers conn with
    | none => rwa [show r.step (.ended conn) = r by simp [step, hid]]
    | some id => exact known_ended hid hr

/-- **No entry goes astray**, whatever the connections do. -/
theorem known_run (events : List (Event κ)) : Known (events.foldl step {}) :=
  foldlRecOn events step ⟨nofun, nofun, nofun⟩ fun _ hr _ _ => known_step hr

end Hub

open Hub in
/-- **The session table.** In a run of connections that register, are lost and end, in any order,
frames go to the newest open connection of their id after every event if and only if all events
are safe. -/
theorem table_current_iff {κ : Type} [DecidableEq κ] (events : List (Event κ)) :
    AlongSteps Hub.step (fun r e => Current (r.step e)) {} events ↔
      AlongSteps Hub.step Safe {} events := by
  have hknown : Known ({} : Hub κ) :=
    ⟨fun _ _ h => (nomatch h), fun _ _ h => (nomatch h), fun _ h => (nomatch h)⟩
  have hcurrent : Current ({} : Hub κ) := fun _ => rfl
  exact AlongSteps.iff_of_invariant (I := fun r => Known r ∧ Current r)
    (fun r e hr _ => current_step_iff hr.1 hr.2)
    (fun r e hr _ h => ⟨known_step hr.1, h⟩) ⟨hknown, hcurrent⟩
    (alongSteps_of_forall (fun _ _ _ => trivial) _)

/-- **Two ways to lose a client.** A client comes back over a new connection before the relay has
noticed that the old one is gone: the clean-up of the old one removes the new one as well. And a
client that changes from QUIC to TCP is not reached over TCP while the relay has not noticed that
the QUIC connection is gone. -/
theorem newer_registration_removed :
    let reconnected := Hub.run ({} : Hub ℕ)
      [.registered .tcp 0 7, .dropped 0, .registered .tcp 1 7, .ended 0]
    let changed := Hub.run ({} : Hub ℕ)
      [.registered .quic 0 7, .dropped 0, .registered .tcp 1 7]
    (reconnected.opened = [1] ∧ reconnected.newest 7 = some 1 ∧ reconnected.reached 7 = none) ∧
      changed.opened = [1] ∧ changed.newest 7 = some 1 ∧ changed.reached 7 = none := by
  decide

end Wireflow.Relay
