/-
# Requests are decided once, if the decision is written while the request is pending

`Approve` and `Reject` look at the status in one store call and write it in another. Two reviewers
who both see a pending request both decide it: the executor runs twice, or runs for a request whose
rejection has succeeded.

In runs in which every decision is written while the stored status is still pending, each request
is decided once. The argument is per reviewer: a request that is no longer pending is changed only
by the reviewer whose approval was written.
-/

import Wireflow.Server.Workflow
import Wireflow.Theorems.Server.Frames

namespace Wireflow.Server

open Semantics Function Contract
open Sql (Rows)
open Wireflow.Api

variable {ι : Type}

/-- The stored status of a request. -/
def statusOf (o : Office) (id : String) : Option WorkflowStatus :=
  (o.view.requests.lookup id).map WorkflowRequest.status

/-- How a stored status may move. -/
inductive Moves : Option WorkflowStatus → Option WorkflowStatus → Prop
  | stay (s : Option WorkflowStatus) : Moves s s
  | reject : Moves (some .pending) (some .rejected)
  | approve : Moves (some .pending) (some .approved)
  | execute : Moves (some .approved) (some .executed)
  | fail : Moves (some .approved) (some .failed)

/-! ## What calls do to requests -/

theorem statusOf_congr {o o' : Office} (h : o'.view.requests = o.view.requests) (id : String) :
    statusOf o' id = statusOf o id := by
  unfold statusOf
  rw [h]

/-- Calls elsewhere leave the requests alone. -/
theorem requests_of_elsewhere {c : OfficeCall} (hc : Elsewhere c) (t : Turn) (o : Office) :
    (execOffice c t o).2.view.requests = o.view.requests := by
  cases c with
  | db c =>
    refine (sameBut_execOffice c t o).requests ?_
    cases c <;> first | exact hc.elim | simp [DbCall.writes]
  | kube c => rfl
  | begin | commit | rollback => exact hc.elim
  | now => rfl
  | generateToken => rfl
  | encryptPassword password => rfl
  | generateBusinessJWT userId => rfl
  | logExecuting id key => rfl

/-- The effect of a status update on a request. -/
theorem statusOf_withStatus (o : Office) (id : String) (status : WorkflowStatus)
    (fields : ReviewFields) (id' : String) :
    statusOf (o.setView { o.view with
      requests := o.view.requests.updateWhere (fun key _ => key = id) (withStatus status fields) })
        id' =
      if id' = id then (statusOf o id').map fun _ => status else statusOf o id' := by
  unfold statusOf
  rw [Office.view_setView, Rows.lookup_updateWhere]
  by_cases hid : id' = id
  · rw [if_pos hid]
    cases o.view.requests.lookup id' with
    | none => rfl
    | some wr => simp [hid, withStatus]
  · rw [if_neg hid]
    cases o.view.requests.lookup id' with
    | none => rfl
    | some wr => simp [hid]

/-- A status update that is answered has been carried out; one that fails may have been. -/
theorem updateStatus_cases (id : String) (status : WorkflowStatus) (fields : ReviewFields)
    (t : Turn) (o : Office) :
    (∃ err, (execOffice (.db (.updateStatus id status fields)) t o).1 = .error err ∧
      ∀ id', statusOf (execOffice (.db (.updateStatus id status fields)) t o).2 id' =
        statusOf o id') ∨
    ((∀ id', statusOf (execOffice (.db (.updateStatus id status fields)) t o).2 id' =
      if id' = id then (statusOf o id').map fun _ => status else statusOf o id')) := by
  simp only [execOffice]
  rcases t.answer_cases o.view ((DbCall.updateStatus id status fields).apply t.fresh o.view) with
    ⟨err, herr⟩ | ⟨a, db', hr, hok | ⟨err, herr⟩⟩
  · left
    refine ⟨err, by rw [herr], fun id' => statusOf_congr ?_ id'⟩
    rw [herr, Office.view_setView]
  · right
    intro id'
    rw [hok]
    cases hr
    exact statusOf_withStatus o id status fields id'
  · right
    intro id'
    rw [herr]
    cases hr
    exact statusOf_withStatus o id status fields id'

/-! ## The contract -/

namespace Ledger

/-- The stored status of a request. -/
def status (l : Ledger ι) (id : String) : Option WorkflowStatus := statusOf l.office id

/-- Nothing about a request has changed. -/
structure SameRequest (id : String) (s t : Ledger ι) : Prop where
  status : t.status id = s.status id
  executions : t.executions id = s.executions id
  owner : t.owner id = s.owner id

/-- What is known of every request. -/
structure Consistent (l : Ledger ι) : Prop where
  pending : ∀ id, l.status id = some .pending →
    l.executions id = 0 ∧ l.owner id = none ∧ id ∉ l.rejected
  once : ∀ id, l.executions id ≤ 1
  rejected : ∀ id ∈ l.rejected, l.executions id = 0 ∧ l.owner id = none

end Ledger

/-- A decision is written only while the request is pending. -/
def DecidesPending : OfficeCall → Ledger ι → Prop
  | .db (.updateStatus id .approved _), l => l.status id = some .pending
  | .db (.updateStatus id .rejected _), l => l.status id = some .pending
  | _, _ => True

instance (c : OfficeCall) (l : Ledger ι) : Decidable (DecidesPending c l) := by
  unfold DecidesPending
  split <;> infer_instance

def decisionContract (ι : Type) :
    Contract ι (Note ι OfficeCall (Except GoError Unit)) (Ledger ι) Turn Empty where
  inv := Ledger.Consistent
  -- a request that is not pending is left alone, unless another reviewer owns it
  rely i s t := ∀ id, s.status id ≠ some .pending → (s.owner id = none ∨ s.owner id = some i) →
    Ledger.SameRequest id s t
  guar i s t := (∀ id, Moves (s.status id) (t.status id)) ∧
    ∀ id, s.status id ≠ some .pending → s.owner id ≠ some i → Ledger.SameRequest id s t
  admits _ c _ l :=
    match c with
    | .call _ c => DecidesPending c l
    | .done _ _ => True
  admitsEnv e _ := nomatch e

instance (i : ι) (c : Note ι OfficeCall (Except GoError Unit)) (t : Turn) (l : Ledger ι) :
    Decidable ((decisionContract ι).admits i c t l) :=
  match c with
  | .call _ c => inferInstanceAs (Decidable (DecidesPending c l))
  | .done _ _ => .isTrue trivial

instance (e : Empty) (l : Ledger ι) : Decidable ((decisionContract ι).admitsEnv e l) :=
  nomatch e

/-! ## Steps -/

/-- What a step of reviewer `i` may do to a request that is pending or that the reviewer owns. -/
structure Handles (i : ι) (id : String) (s t : Ledger ι) : Prop where
  pending : t.status id = some .pending →
    t.executions id = 0 ∧ t.owner id = none ∧ id ∉ s.rejected
  once : t.executions id ≤ 1
  kept : id ∈ s.rejected → t.executions id = 0 ∧ t.owner id = none
  moves : Moves (s.status id) (t.status id)
  mine : s.status id = some .pending ∨ s.owner id = some i

/-- A step that leaves each request alone or handles it. -/
theorem request_step {i : ι} {s t : Ledger ι} (h : s.Consistent)
    (hsteps : ∀ id, Ledger.SameRequest id s t ∨ Handles i id s t)
    (hrejected : t.rejected = s.rejected) : t.Consistent ∧ (decisionContract ι).guar i s t := by
  refine ⟨⟨fun id hid => ?_, fun id => ?_, fun id hid => ?_⟩, fun id => ?_,
    fun id hstatus howner => ?_⟩ <;> rcases hsteps id with hsame | hhandles
  · rw [hsame.executions, hsame.owner, hrejected]
    exact h.pending id (hsame.status ▸ hid)
  · rw [hrejected]
    exact hhandles.pending hid
  · rw [hsame.executions]
    exact h.once id
  · exact hhandles.once
  · rw [hsame.executions, hsame.owner]
    exact h.rejected id (hrejected ▸ hid)
  · exact hhandles.kept (hrejected ▸ hid)
  · rw [hsame.status]
    exact .stay _
  · exact hhandles.moves
  · exact hsame
  · rcases hhandles.mine with hmine | hmine
    · exact absurd hmine hstatus
    · exact absurd hmine howner

/-- An assertion about a request that only its reviewer can end. -/
theorem stable_request {i : ι} {id : String} {P : Option WorkflowStatus → ℕ → Option ι → Prop}
    (hsettled : ∀ status n owner, P status n owner →
      status ≠ some .pending ∧ (owner = none ∨ owner = some i)) :
    (decisionContract ι).Stable i fun l => P (l.status id) (l.executions id) (l.owner id) := by
  intro s t hs hrely
  obtain ⟨hstatus, howner⟩ := hsettled _ _ _ hs
  have hsame := hrely id hstatus howner
  rw [hsame.status, hsame.executions, hsame.owner]
  exact hs

/-- The reviewer's rejection has been written. -/
def Refused (id : String) (l : Ledger ι) : Prop :=
  l.status id = some .rejected ∧ l.executions id = 0 ∧ l.owner id = none

/-- The reviewer's approval has been written, and what follows has not been carried out. -/
def Owned (i : ι) (id : String) (l : Ledger ι) : Prop :=
  l.status id = some .approved ∧ l.owner id = some i

theorem stable_refused (i : ι) (id : String) : (decisionContract ι).Stable i (Refused id) :=
  stable_request (P := fun status n owner => status = some .rejected ∧ n = 0 ∧ owner = none)
    fun _ _ _ h => ⟨by simp [h.1], .inl h.2.2⟩

theorem stable_owned (i : ι) (id : String) : (decisionContract ι).Stable i (Owned i id) :=
  stable_request (P := fun status _ owner => status = some .approved ∧ owner = some i)
    fun _ _ _ h => ⟨by simp [h.1], .inr h.2⟩

theorem stable_unstarted (i : ι) (id : String) :
    (decisionContract ι).Stable i fun l => Owned i id l ∧ l.executions id = 0 :=
  stable_request
    (P := fun status n owner => (status = some .approved ∧ owner = some i) ∧ n = 0)
    fun _ _ _ h => ⟨by simp [h.1.1], .inr h.1.2⟩

/-- What a status update by reviewer `i` may do to a request, whether it is answered or not. -/
structure Writes (i : ι) (id : String) (status : WorkflowStatus) (s t : Ledger ι) : Prop where
  others : ∀ id', id' ≠ id → Ledger.SameRequest id' s t
  executions : t.executions = s.executions
  rejected : t.rejected = s.rejected
  effect : (t.status id = s.status id ∧ t.owner id = s.owner id) ∨
    (t.status id = some status ∧
      (t.owner id = s.owner id ∨ s.status id = some .pending ∧ t.owner id = some i))

variable {status : WorkflowStatus}

/-- A status update moves a request that is pending or that the reviewer owns. -/
theorem Writes.step {i : ι} {id : String} {s t : Ledger ι} (h : Writes i id status s t)
    (hs : s.Consistent) (hmove : Moves (s.status id) (some status)) (hdecided : status ≠ .pending)
    (hmine : s.status id = some .pending ∨ s.owner id = some i) :
    t.Consistent ∧ (decisionContract ι).guar i s t := by
  refine request_step hs (fun id' => ?_) h.rejected
  rcases eq_or_ne id' id with rfl | hne
  swap
  · exact .inl (h.others id' hne)
  refine .inr ⟨fun hpending => ?_, ?_, fun hrejected => ?_, ?_, hmine⟩
  · rw [h.executions]
    -- the request is still pending, so the update was not carried out
    rcases h.effect with ⟨hstatus, howner⟩ | ⟨hstatus, -⟩
    · rw [howner]
      exact hs.pending id' (hstatus ▸ hpending)
    · rw [hstatus] at hpending
      exact absurd (Option.some.inj hpending) hdecided
  · rw [h.executions]
    exact hs.once id'
  · obtain ⟨hexec, howner⟩ := hs.rejected id' hrejected
    rw [h.executions]
    refine ⟨hexec, ?_⟩
    rcases h.effect with ⟨-, hkept⟩ | ⟨-, hkept | ⟨hpending, -⟩⟩
    · rw [hkept, howner]
    · rw [hkept, howner]
    · exact absurd hrejected (hs.pending id' hpending).2.2
  · rcases h.effect with ⟨hstatus, -⟩ | ⟨hstatus, -⟩
    · rw [hstatus]
      exact .stay _
    · rw [hstatus]
      exact hmove

variable {decisions : ι → Decision}

/-- An approval that is answered without an error makes its reviewer the owner. -/
theorem ownerAfter_updateStatus (l : Ledger ι) (i : ι) (id : String) (status : WorkflowStatus)
    (fields : ReviewFields) (r : Except GoError Unit) :
    ownerAfter l i (.db (.updateStatus id status fields)) r =
      if status = .approved ∧ r = .ok () then update l.owner id (some i)
      else l.owner := by
  cases status <;> cases r <;> simp [ownerAfter]

theorem status_written {l : Ledger ι} {id : String} (hstored : (l.status id).isSome = true) :
    (if id = id then (statusOf l.office id).map fun _ => status else statusOf l.office id) =
      some status := by
  obtain ⟨st, hst⟩ := Option.isSome_iff_exists.mp hstored
  rw [if_pos rfl, show statusOf l.office id = some st from hst]
  rfl

variable (decisions) in
/-- The status update of a reviewer, as the ledger records it. -/
theorem writes_updateStatus (i : ι) (id : String) (status : WorkflowStatus)
    (fields : ReviewFields) (t : Turn) (l : Ledger ι)
    (hstatus : status = .approved → l.status id = some .pending)
    (hstored : (l.status id).isSome = true) :
    Writes i id status l
      (book decisions (.call i (.db (.updateStatus id status fields))) t l).2 := by
  set r := (execOffice (.db (.updateStatus id status fields)) t l.office).1 with hr
  have howner := ownerAfter_updateStatus l i id status fields r
  have hothers : ∀ id', id' ≠ id →
      ownerAfter l i (.db (.updateStatus id status fields)) r id' = l.owner id' := by
    intro id' hid
    rw [howner]
    split_ifs
    · exact update_of_ne hid _ _
    · rfl
  rcases updateStatus_cases id status fields t l.office with ⟨err, herr, hsame⟩ | heffect
  · refine ⟨fun id' hid => ⟨hsame id', rfl, hothers id' hid⟩, rfl, rfl, .inl ⟨hsame id, ?_⟩⟩
    refine (congrFun howner id).trans ?_
    rw [if_neg]
    rintro ⟨-, hok⟩
    rw [hr, herr] at hok
    cases hok
  · refine ⟨fun id' hid => ⟨(heffect id').trans (if_neg hid), rfl, hothers id' hid⟩, rfl, rfl,
      .inr ⟨?_, ?_⟩⟩
    · exact (heffect id).trans (status_written hstored)
    · by_cases happroved : status = .approved ∧ r = .ok ()
      · refine .inr ⟨hstatus happroved.1, (congrFun howner id).trans ?_⟩
        rw [if_pos happroved, update_self]
      · refine .inl ((congrFun howner id).trans ?_)
        rw [if_neg happroved]

/-! ## Programs -/

variable (decisions) in
/-- Calls elsewhere are recorded as nothing. -/
theorem elsewhere_step {i : ι} {c : OfficeCall} (hc : Elsewhere c) (t : Turn) {l l' : Ledger ι}
    (h : l.Consistent) (hl' : (book decisions (.call i c) t l).2 = l') :
    l'.Consistent ∧ (decisionContract ι).guar i l l' ∧ ∀ id, Ledger.SameRequest id l l' := by
  have hstatus : ∀ id, l'.status id = l.status id :=
    hl' ▸ statusOf_congr (requests_of_elsewhere hc t l.office)
  have hexec : l'.executions = l.executions := by
    rw [← hl']
    cases c <;> first | rfl | exact hc.elim
  have howner : l'.owner = l.owner := by
    rw [← hl']
    cases c with
    | db c => cases c <;> first | rfl | exact hc.elim
    | _ => rfl
  have hsame : ∀ id, Ledger.SameRequest id l l' :=
    fun id => ⟨hstatus id, congrFun hexec id, congrFun howner id⟩
  obtain ⟨hinv, hguar⟩ := request_step h (fun id => .inl (hsame id)) (hl' ▸ rfl)
  exact ⟨hinv, hguar, hsame⟩

/-- The contract as the calls of one reviewer see it. -/
abbrev reviewerCalls (i : ι) : Contract ι OfficeCall (Ledger ι) Turn Empty :=
  (decisionContract ι).callsOf i

/-- What a part of a reviewer's program ensures. -/
abbrev ReviewerEnsures (decisions : ι → Decision) (i : ι) {α : Type} (p : OfficeProg α)
    (post : α → Ledger ι → Prop) (s : Ledger ι) : Prop :=
  (reviewerCalls i).wp (fun c => book decisions (.call i c)) i p post s

/-- A program that works elsewhere keeps what only its reviewer can end. -/
theorem wp_elsewhere {α : Type} {i : ι} {P : Ledger ι → Prop}
    (hstable : (decisionContract ι).Stable i P)
    (hsame : ∀ s t, P s → (∀ id, Ledger.SameRequest id s t) → P t)
    {p : OfficeProg α} {Q : α → Prop} (hp : p.Within Elsewhere Q) {s : Ledger ι} (hs : P s) :
    ReviewerEnsures decisions i p (fun a t => Q a ∧ P t) s := by
  refine wp_of_within (K := reviewerCalls i) hstable
    (fun c hc t choice hP hinv _ => ?_) hp hs
  obtain ⟨hinv', hguar, hreq⟩ := elsewhere_step decisions hc choice hinv rfl
  exact ⟨hinv', hguar, hsame _ _ hP hreq⟩

theorem within_pendingRequest (verb id : String) :
    (pendingRequest verb id).Within Elsewhere fun _ => True := by
  refine Program.within_bind (Q := fun _ => True)
    (Program.within_bind ⟨trivial, fun _ => trivial⟩ fun _ _ => trivial) ?_
  rintro (err | wr) -
  · trivial
  · dsimp only
    split_ifs <;> trivial

section Wp

variable {α : Type} {i : ι} {id : String} {fields : ReviewFields} {post : α → Ledger ι → Prop}
  {resume : Except GoError Unit → OfficeProg α} {s : Ledger ι}

/-- The decision of a reviewer. -/
theorem wp_decided (hverdict : status = .approved ∨ status = .rejected)
    (hnext : ∀ r t, (r = .ok () → t.status id = some status ∧ t.executions id = 0 ∧
        t.owner id = if status = .approved then some i else none) →
      ReviewerEnsures decisions i (resume r) post t) :
    ReviewerEnsures decisions i (.call (.db (.updateStatus id status fields)) resume) post s := by
  refine wp_call (fun _ => True) (fun _ _ _ _ => trivial) trivial
    fun l _ hinv choice hadm => ?_
  have hpending : l.status id = some .pending := by
    rcases hverdict with rfl | rfl <;> exact hadm
  have hstored : (l.status id).isSome = true := by simp [hpending]
  have hwrites := writes_updateStatus decisions i id status fields choice l
    (fun _ => hpending) hstored
  have hmove : Moves (l.status id) (some status) := by
    rw [hpending]
    rcases hverdict with rfl | rfl
    · exact .approve
    · exact .reject
  obtain ⟨hinv', hguar⟩ := hwrites.step hinv hmove (by rcases hverdict with rfl | rfl <;> simp)
    (.inl hpending)
  obtain ⟨hexec, howner, -⟩ := hinv.pending id hpending
  refine ⟨hinv', hguar, hnext _ _ fun hok => ⟨?_, ?_, ?_⟩⟩
  · -- an update that is answered without an error has been carried out
    rcases updateStatus_cases id status fields choice l.office with ⟨err, herr, -⟩ | heffect
    · cases herr.symm.trans hok
    · exact (heffect id).trans (status_written hstored)
  · rw [hwrites.executions, hexec]
  · refine (congrFun (ownerAfter_updateStatus l i id status fields _) id).trans ?_
    rcases hverdict with rfl | rfl
    · rw [if_pos ⟨rfl, hok⟩, update_self, if_pos rfl]
    · simpa using howner

/-- The outcome of an execution is written by the owner of the request. -/
theorem wp_outcome (hstatus : status = .executed ∨ status = .failed) (hs : Owned i id s)
    (hnext : ∀ r t, ReviewerEnsures decisions i (resume r) post t) :
    ReviewerEnsures decisions i (.call (.db (.updateStatus id status fields)) resume) post s := by
  refine wp_call (K := reviewerCalls i) (Owned i id) (stable_owned i id) hs
    fun l hown hinv choice _ => ?_
  have hwrites := writes_updateStatus decisions i id status fields choice l
    (by rcases hstatus with rfl | rfl <;> simp) (by simp [hown.1])
  have hmove : Moves (l.status id) (some status) := by
    rw [hown.1]
    rcases hstatus with rfl | rfl
    · exact .execute
    · exact .fail
  obtain ⟨hinv', hguar⟩ := hwrites.step hinv hmove (by rcases hstatus with rfl | rfl <;> simp)
    (.inr hown.2)
  exact ⟨hinv', hguar, hnext _ _⟩

/-- The run of an executor is counted once, by the owner of the request. -/
theorem wp_logExecuting {key : String} {resume : Unit → OfficeProg α}
    (hs : Owned i id s ∧ s.executions id = 0)
    (hnext : ∀ t, Owned i id t →
      ReviewerEnsures decisions i (resume ()) post t) :
    ReviewerEnsures decisions i
      (.call (.logExecuting id key) resume) post s := by
  refine wp_call (K := reviewerCalls i) (fun l => Owned i id l ∧ l.executions id = 0)
    (stable_unstarted i id) hs fun l hl hinv choice _ => ?_
  obtain ⟨hown, hzero⟩ := hl
  have hsteps : ∀ id', Ledger.SameRequest id' l
        (book decisions (.call i (.logExecuting id key)) choice l).2 ∨
      Handles i id' l (book decisions (.call i (.logExecuting id key)) choice l).2 := by
    intro id'
    rcases eq_or_ne id' id with rfl | hne
    · refine .inr ⟨fun hpending => ?_, ?_, fun hid => ?_, .stay _, .inr hown.2⟩
      · cases hown.1.symm.trans hpending
      · simp [book, executionsAfter, hzero]
      · cases hown.2.symm.trans (hinv.rejected id' hid).2
    · exact .inl ⟨rfl, update_of_ne hne _ _, rfl⟩
  obtain ⟨hinv', hguar⟩ := request_step hinv hsteps rfl
  exact ⟨hinv', hguar, hnext _ hown⟩

end Wp

/-! ## Decisions -/

variable {registered : String → Option Executor} {i : ι}

theorem wp_recordOutcome {id : String} (outcome : Except GoError Unit) {s : Ledger ι}
    (hs : Owned i id s) :
    ReviewerEnsures decisions i (recordOutcome id outcome) (fun _ _ => True) s := by
  cases outcome with
  | error err => exact wp_outcome (.inr rfl) hs fun _ _ => trivial
  | ok value => exact wp_outcome (.inl rfl) hs fun _ _ => trivial

/-- The goroutine of the owner. -/
theorem wp_execute {id : String} {wr : WorkflowRequest} {s : Ledger ι}
    (hs : Owned i id s ∧ s.executions id = 0) :
    ReviewerEnsures decisions i (execute (executorsOf registered) id wr) (fun _ _ => True) s := by
  unfold execute executorsOf
  cases hkey : registered (executorKey wr.resourceType wr.action) with
  | none =>
    simp only [hkey, Option.map_none]
    exact wp_recordOutcome _ hs.1
  | some executor =>
    simp only [hkey, Option.map_some]
    refine wp_logExecuting hs fun t ht => wp_bind.mpr (wp_bind.mpr ?_)
    refine wp_mono (fun outcome u hu => wp_recordOutcome outcome hu.2)
      (wp_elsewhere (stable_owned i id) (fun l l' hl hsame => ?_)
        (executor.confined wr.payload) ht)
    exact ⟨by rw [(hsame id).status, hl.1], by rw [(hsame id).owner, hl.2]⟩

/-- What holds when the call of a reviewer returns. -/
def Concluded (d : Decision) (outcome : Except GoError Unit) (l : Ledger ι) : Prop :=
  outcome = .ok () → d.verb = .reject → Refused d.id l

variable (decisions) in
theorem wp_decision (d : Decision) (s : Ledger ι) :
    ReviewerEnsures decisions i (d.program registered) (Concluded d) s := by
  have hread : ∀ verb, ReviewerEnsures decisions i
      (pendingRequest verb d.id) (fun _ _ => True ∧ True) s := fun verb =>
    wp_elsewhere (fun _ _ _ _ => trivial) (fun _ _ _ _ => trivial)
      (within_pendingRequest verb d.id) trivial
  unfold Decision.program
  cases hverb : d.verb with
  | reject =>
    exact wp_except (hread "reject") (fun _ _ _ h => nomatch h)
      fun wr t _ => wp_decided (.inr rfl) fun r t hrefused hok _ => hrefused hok
  | approve =>
    have hno : ∀ (outcome : Except GoError Unit) (l : Ledger ι), Concluded d outcome l :=
      fun _ _ _ hreject => by rw [hverb] at hreject; cases hreject
    refine wp_bind.mpr (wp_except (hread "approve") (fun _ _ _ => hno _ _)
      fun wr t _ => wp_bind.mpr (wp_decided (.inl rfl) fun r t hown => ?_))
    cases r with
    | error err => exact hno _ _
    | ok value =>
      obtain ⟨hstatus, hzero, howner⟩ := hown rfl
      exact wp_bind.mpr (wp_mono (fun _ _ _ => hno _ _)
        (wp_execute ⟨⟨hstatus, howner⟩, hzero⟩))

/-- The end of a call is noted. -/
theorem wp_done {outcome : Except GoError Unit} {s : Ledger ι}
    (hs : Concluded (decisions i) outcome s) :
    (decisionContract ι).wp (book decisions) i (.call (.done i outcome) fun _ => .ret ())
      (fun _ _ => True) s := by
  have hquiet : ∀ l : Ledger ι, l.Consistent → l.Consistent ∧ (decisionContract ι).guar i l l :=
    fun l hl => request_step hl (fun _ => .inl ⟨rfl, rfl, rfl⟩) rfl
  cases outcome with
  | error err =>
    intro l _ hinv _ _
    exact ⟨(hquiet l hinv).1, (hquiet l hinv).2, trivial⟩
  | ok value =>
    by_cases hverb : (decisions i).verb = .reject
    · refine wp_call (Refused (decisions i).id) (stable_refused i _) (hs rfl hverb)
        fun l hl hinv choice _ => ?_
      have hbook : (book decisions (.done i (.ok value)) choice l).2 =
          { l with rejected := (decisions i).id :: l.rejected } := if_pos hverb
      rw [hbook]
      refine ⟨⟨fun id hpending => ?_, hinv.once, fun id hid => ?_⟩,
        ⟨fun id => .stay _, fun id _ _ => ⟨rfl, rfl, rfl⟩⟩, trivial⟩
      · obtain ⟨hexec, howner, hrejected⟩ := hinv.pending id hpending
        refine ⟨hexec, howner, fun hmem => ?_⟩
        rcases List.mem_cons.mp hmem with rfl | hmem
        · change l.status _ = _ at hpending
          rw [hl.1] at hpending
          cases hpending
        · exact hrejected hmem
      · rcases List.mem_cons.mp hid with rfl | hid
        · exact hl.2
        · exact hinv.rejected id hid
    · intro l _ hinv choice _
      have hbook : (book decisions (.done i (.ok value)) choice l).2 = l := if_neg hverb
      rw [hbook]
      exact ⟨(hquiet l hinv).1, (hquiet l hinv).2, trivial⟩

theorem respects_reviewers : (decisionContract ι).Respects (reviewers registered decisions) where
  program i s _ _ := wp_journal (wp_mono (fun _ _ h => wp_done h)
    (wp_decision decisions (decisions i) s))
  stable _ := fun _ _ _ _ => trivial
  compat i j s t hij hguar := fun id hstatus howner => by
    refine hguar.2 id hstatus ?_
    rcases howner with hnone | hj
    · simp [hnone]
    · rw [hj]
      simpa using Ne.symm hij
  env e := nomatch e

/-! ## Runs -/

theorem consistent_initial (office : Office) : ({ office := office } : Ledger ι).Consistent :=
  ⟨fun _ _ => ⟨rfl, rfl, List.not_mem_nil⟩, fun _ => Nat.zero_le _, nofun⟩

section Runs

variable [DecidableEq ι]

/-- The reviewers are sound at every point of an admitted run. -/
theorem sound_ledger {office : Office} {schedule : List (Action ι Turn Empty)}
    (h : (decisionContract ι).Along (reviewers registered decisions)
      (Workers.idle { office := office }) schedule) :
    (decisionContract ι).Sound (reviewers registered decisions)
      ((reviewers registered decisions).run (Workers.idle { office := office }) schedule) :=
  (sound_idle (consistent_initial office) fun _ => trivial).run respects_reviewers h

/-- One step of an admitted run moves every status as it may. -/
theorem moves_along {office : Office} {first rest : List (Action ι Turn Empty)}
    {a : Action ι Turn Empty}
    (h : (decisionContract ι).Along (reviewers registered decisions)
      (Workers.idle { office := office }) (first ++ a :: rest)) (id : String) :
    Moves ((ledgerAfter registered decisions office first).status id)
      ((ledgerAfter registered decisions office (first ++ [a])).status id) := by
  obtain ⟨hfirst, hsecond⟩ := h.append
  have hlast : ledgerAfter registered decisions office (first ++ [a]) =
      ((reviewers registered decisions).step ((reviewers registered decisions).run
        (Workers.idle { office := office }) first) a).shared := by
    simp [ledgerAfter, Workers.run]
  rw [hlast]
  rcases (sound_ledger hfirst).step_cases ⟨hsecond.1, trivial⟩ with hsame | ⟨i, hguar⟩ | ⟨e, -⟩
  · rw [hsame]
    exact .stay _
  · exact hguar.1 id
  · exact e.elim

/-- **Requests are decided once**, in every run in which decisions are written while the request
is pending: an executor runs at most once for a request and never for one whose rejection has
succeeded, and the stored status moves from pending to rejected, or from pending to approved and
then to executed or failed. -/
theorem decided_once_along (registered : String → Option Executor) (decisions : ι → Decision)
    (office : Office) (schedule : List (Action ι Turn Empty))
    (h : (decisionContract ι).Along (reviewers registered decisions)
      (Workers.idle { office := office }) schedule) :
    (∀ id, (ledgerAfter registered decisions office schedule).executions id ≤ 1) ∧
      (∀ id ∈ (ledgerAfter registered decisions office schedule).rejected,
        (ledgerAfter registered decisions office schedule).executions id = 0) ∧
      ∀ first a rest, schedule = first ++ a :: rest → ∀ id,
        Moves ((ledgerAfter registered decisions office first).status id)
          ((ledgerAfter registered decisions office (first ++ [a])).status id) := by
  have hsound := sound_ledger h
  refine ⟨hsound.inv.once, fun id hid => (hsound.inv.rejected id hid).1, ?_⟩
  intro first a rest hsplit id
  subst hsplit
  exact moves_along h id

end Runs

/-! ## Two reviewers -/

/-- An executor that has nothing to do. -/
def idleExecutor : Executor := ⟨fun _ => succeed (), fun _ => trivial⟩

/-- One pending request. -/
def oneRequest : Office :=
  { db :=
      { requests := Go.GoMap.ofPairs [("r", { resourceType := "policy", action := "create" })] } }

/-- Everybody has an executor. -/
def everyKey : String → Option Executor := fun _ => some idleExecutor

/-- The first reviewer approves; the second approves too, or rejects. -/
def twoReviewers (verb : Verb) (second : Bool) : Decision :=
  { verb := if second then verb else .approve, id := "r" }

/-- A reviewer takes `n` steps. -/
def steps (second : Bool) (n : ℕ) : List (Action Bool Turn Empty) :=
  .start second :: List.replicate n (.advance second {})

/-- Both see the pending request before either decides. -/
def bothSeePending : List (Action Bool Turn Empty) :=
  steps false 1 ++ steps true 1 ++ List.replicate 4 (.advance false {}) ++
    List.replicate 4 (.advance true {})

/-- Two approvals run the executor twice. After an approval and a rejection that both succeed, the
executor has run for the rejected request, and the status has left the ways it may take. -/
theorem decided_twice :
    (ledgerAfter everyKey (twoReviewers .approve) oneRequest bothSeePending).executions "r" = 2 ∧
      "r" ∈ (ledgerAfter everyKey (twoReviewers .reject) oneRequest bothSeePending).rejected ∧
      (ledgerAfter everyKey (twoReviewers .reject) oneRequest bothSeePending).executions "r" = 1 ∧
      (ledgerAfter everyKey (twoReviewers .reject) oneRequest bothSeePending).status "r" =
        some .rejected := by
  refine ⟨?_, ?_, ?_, ?_⟩
  · decide +kernel
  · decide +kernel
  · decide +kernel
  · decide +kernel

/-- One reviewer after the other. -/
def oneByOne : List (Action Bool Turn Empty) := steps false 6 ++ steps true 3

/-- The ledger of a reviewer who approves and one who rejects. -/
abbrev lateRejection (schedule : List (Action Bool Turn Empty)) : Ledger Bool :=
  ledgerAfter everyKey (twoReviewers .reject) oneRequest schedule

/-- When the second reviewer comes late, the request is approved and executed once. -/
theorem decided_once_one_by_one :
    (lateRejection oneByOne).executions "r" = 1 ∧
      ((∀ id, (lateRejection oneByOne).executions id ≤ 1) ∧
        (∀ id ∈ (lateRejection oneByOne).rejected, (lateRejection oneByOne).executions id = 0) ∧
        ∀ first a rest, oneByOne = first ++ a :: rest → ∀ id,
          Moves ((lateRejection first).status id) ((lateRejection (first ++ [a])).status id)) := by
  have hran : (lateRejection oneByOne).executions "r" = 1 := by decide +kernel
  have halong : (decisionContract Bool).Along (reviewers everyKey (twoReviewers .reject))
      (Workers.idle { office := oneRequest }) oneByOne := by decide +kernel
  exact ⟨hran, decided_once_along everyKey (twoReviewers .reject) oneRequest oneByOne halong⟩

end Wireflow.Server
