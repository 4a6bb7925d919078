/-
# The approval gate

Policies are meant to come into force by executing an approved request of their workspace.
Approvals are not checked for who gives them, and some requests put policies in force directly.
`gated_along`: as long as nobody sends those requests and approvals come from admins of the
workspace other than the requester, the gate holds along every sequence of requests.
-/

import Wireflow.Theorems.Server.InvitationLife
import Wireflow.Theorems.Server.Isolation

namespace Wireflow.Server

open Semantics DbCall Invitations
open Wireflow.Api

/-! ## The gate -/

/-- An approval by an admin of the workspace who is not the one that asked for it. -/
def Approval.Proper (a : Approval) : Prop :=
  ActiveMember a.db a.request.workspaceId a.reviewerId .admin ∧
    a.reviewerId ≠ a.request.requestedBy

/-- Whenever a policy of a workspace is created or changed, a request of that workspace is executed
that was properly approved. -/
def Gated (lib : ApiLibrary) (h : House) (e : ApiEvent) : Prop :=
  ∀ key p, (h.next lib e).cluster.store.policies.get key = some p →
    h.cluster.store.policies.get key ≠ some p →
      ∀ wsId, Owns (h.next lib e).db wsId key.ns →
        ∃ a, h.executes e = some a ∧ a.request.workspaceId = wsId ∧ a.Proper

/-- The event is not caused by a platform admin. -/
def Ordinary : ApiEvent → Prop
  | (.request claims _ _, _) => claims.systemRole ≠ .platformAdmin
  | (.unscoped claims _, _) => claims.systemRole ≠ .platformAdmin
  | (.execute _, _) => True

/-- What a request that passes the middleware may be. -/
def ApiRequest.Guarded (h : House) (claims : Claims) : ApiRequest → Prop
  | updatePolicy _ => False
  | generateToken => False
  | approveWorkflow _ reqId _ => ∀ wr, h.db.requests.lookup reqId = some wr →
      ActiveMember h.db wr.workspaceId claims.userId .admin ∧ claims.userId ≠ wr.requestedBy
  | _ => True

/-- No policy is put in force directly, requests are approved by admins of their workspace other
than the requester, and the record that a request names belongs to the workspace of the request. -/
def Guarded (lib : ApiLibrary) (h : House) : ApiEvent → Prop
  | (.request claims header req, turns) =>
      (∃ ctx d₁, (workspaceAuthMiddleware req.requiredRole claims header req.pathId).run attend
        (h.desk turns) = (.ok ctx, d₁)) → req.Guarded h claims
  | (.unscoped _ req, _) => ∀ dto, req ≠ .addWs dto
  | (.execute n, _) => ∀ a, h.approvals[n]? = some a →
      ∀ rec, Enforces lib.codec h.db a.request rec → rec.workspaceId = a.request.workspaceId

/-! ## Requests without a workspace -/

/-- A call that touches neither workspaces nor the cluster. -/
def OfficeCall.Quiet : OfficeCall → Prop
  | .db c => c.writes ≠ some .workspaces
  | .kube _ => False
  | _ => True

/-- Workspaces and the cluster are as in another office, also in an open transaction. -/
structure Calm (o o' : Office) : Prop where
  cluster : o'.cluster = o.cluster
  db : o'.db.workspaces = o.db.workspaces
  view : o'.view.workspaces = o.db.workspaces

theorem Calm.setView {o o' : Office} (h : Calm o o') {db' : Database}
    (hdb : db'.workspaces = o.db.workspaces) : Calm o (o'.setView db') := by
  refine ⟨(Office.cluster_setView _ _).trans h.cluster, ?_, ?_⟩
  · obtain ⟨db, tx, cluster⟩ := o'
    cases tx with
    | none => exact hdb
    | some _ => exact h.db
  · rw [Office.view_setView]
    exact hdb

theorem Calm.execOffice {o o' : Office} {c : OfficeCall} (hc : c.Quiet) (t : Turn)
    (h : Calm o o') : Calm o (execOffice c t o').2 := by
  cases c with
  | db c =>
    have hsame := (sameBut_execOffice c t o').workspaces hc
    change (o'.setView _).view.workspaces = _ at hsame
    rw [Office.view_setView] at hsame
    exact h.setView (hsame.trans h.view)
  | kube c => exact hc.elim
  | begin =>
    change Calm o (if t.fault.isNone then _ else o')
    split_ifs
    · exact ⟨h.cluster, h.db, h.db⟩
    · exact h
  | commit =>
    rcases execOffice_commit t o' with hkept | hdropped
    · rw [hkept]
      exact ⟨h.cluster, h.view, h.view⟩
    · rw [hdropped]
      exact ⟨h.cluster, h.db, h.db⟩
  | rollback => exact ⟨h.cluster, h.db, h.db⟩
  | _ => exact h

/-- A program that touches neither workspaces nor the cluster. -/
abbrev QuietProg {α : Type} (p : OfficeProg α) : Prop := Confined OfficeCall.Quiet p

theorem quiet_db (c : DbCall) (hc : c.writes ≠ some .workspaces) : QuietProg c.issue := .db c hc

variable {α : Type}

theorem QuietProg.transaction {body : OfficeProg (Except GoError α)} (hbody : QuietProg body) :
    QuietProg (transaction body) := by
  refine (Confined.call .begin trivial).unwrap fun _ => Confined.bind hbody fun r => ?_
  cases r with
  | error err => exact (Confined.call .rollback trivial).bind fun _ => .ret _
  | ok a => exact (Confined.call .commit trivial).unwrap fun _ => .ret _

theorem QuietProg.calm {p : OfficeProg α} (hp : QuietProg p) (d : Desk) (htx : d.office.tx = none) :
    Calm d.office (p.run attend d).2.office := by
  have hstart : Calm d.office d.office :=
    ⟨rfl, rfl, by rw [Office.view, htx, Option.getD_none]⟩
  exact Confined.run hp (fun c t o hc h => h.execOffice hc t) hstart

section Unscoped

open Confined (call)

theorem quiet_accept (lib : InvitationLibrary) (token acceptorId : String) :
    QuietProg (accept lib token acceptorId) :=
  QuietProg.transaction (confined_acceptTx (fun _ hc => hc) trivial token acceptorId)

theorem quiet_registerAndAccept (lib : InvitationLibrary) (token username password : String) :
    QuietProg (registerAndAccept lib token username password) :=
  QuietProg.transaction (confined_registerAndAcceptTx (fun _ hc => hc) trivial (fun _ => trivial)
    (fun _ => trivial) token username password)

theorem quiet_addUser (username ns password : String) (role : WorkspaceRole) :
    QuietProg (addUser username ns password role) :=
  QuietProg.transaction <| (call (.encryptPassword password) trivial).mapError.unwrap fun _ =>
    (quiet_db (.createUser _) (by simp [writes])).unwrap fun _ =>
      (quiet_db (.getWorkspaceByNamespace ns) (by simp [writes])).unwrap fun _ =>
        (quiet_db (.addMember _) (by simp [writes])).unwrap fun _ => trivial

/-- Apart from the creation of workspaces, requests without a workspace leave the workspaces and
the cluster alone. -/
theorem quiet_unscoped (lib : ApiLibrary) (claims : Claims) (req : OpenRequest)
    (hreq : ∀ dto, req ≠ .addWs dto) : QuietProg (req.handle lib claims) := by
  cases req with
  | addWs dto => exact absurd rfl (hreq dto)
  | addUser username ns password role => exact quiet_addUser username ns password role
  | acceptInvitation token => exact quiet_accept lib.invitations token claims.userId
  | registerAndAccept token username password =>
    exact (quiet_registerAndAccept lib.invitations token username password).unwrap fun _ => trivial
  | registerUser username password =>
    exact (call (.encryptPassword password) trivial).unwrap fun _ =>
      (quiet_db (.createUser _) nofun).unwrap fun _ => trivial
  | deleteUser id =>
    unfold OpenRequest.handle required
    dsimp only
    split_ifs
    · trivial
    · exact quiet_db (.deleteUser id) nofun

end Unscoped

/-! ## Steps -/

/-- The workspaces are tidy and all approvals proper. -/
structure House.Ready (h : House) : Prop where
  tidy : Tidy h.db
  proper : ∀ a ∈ h.approvals, a.Proper

/-- Every policy of an office was there before. -/
def NoNewPolicy (o o' : Office) : Prop :=
  ∀ key p, o'.cluster.store.policies.get key = some p → o.cluster.store.policies.get key = some p

variable {lib : ApiLibrary} {h : House} {turns : ℕ → Turn} {claims : Claims}

/-- What a guarded request does: no policy is new, and an approval that it gives is for a stored
request that the caller may approve. -/
structure Reserved (h : House) (claims : Claims)
    (r : Except GoError (Option (String × WorkflowRequest))) (o' : Office) : Prop where
  tidy : Tidy o'.db
  policies : NoNewPolicy h.office o'
  approval : ∀ id wr, r = .ok (some (id, wr)) →
    ActiveMember h.db wr.workspaceId claims.userId .admin ∧ claims.userId ≠ wr.requestedBy

theorem Reserved.of_fits {T : String → Prop} {puts : Prop}
    {r : Except GoError (Option (String × WorkflowRequest))} {o' : Office} (htidy : Tidy h.db)
    (hfits : Fits T puts h.office o') (hputs : ¬puts) (hr : ∀ id wr, r ≠ .ok (some (id, wr))) :
    Reserved h claims r o' where
  tidy := hfits.db.tidy htidy
  policies := hfits.cluster.kept hputs
  approval id wr heq := absurd heq (hr id wr)

section

variable {req : ApiRequest} (hready : h.Ready)

include hready

/-- An approval by somebody who may give it. -/
theorem reserved_approve {d : Desk} (hd : d.office = h.office) {reqId note : String}
    (hguarded : ∀ wr, h.db.requests.lookup reqId = some wr →
      ActiveMember h.db wr.workspaceId claims.userId .admin ∧ claims.userId ≠ wr.requestedBy) :
    ((approve reqId claims.userId note).unwrap
      fun wr => succeed (some (reqId, wr))).Ensures attend
        (fun r d' => Reserved h claims r d'.office) d := by
  have hstart : Fits (fun _ => True) False h.office d.office := hd.symm ▸ .refl rfl
  have hfits : (approve reqId claims.userId note).Ensures attend
      (fun _ d' => Fits (fun _ => True) False h.office d'.office) d :=
    (fitting_approve reqId claims.userId note).run hready.tidy hstart
  have happrove := ensures_approve (d := d) reqId claims.userId note
  refine (hfits.and happrove).unwrap (fun _ _ h' => ?_) fun wr d' h' => ?_
  · exact .of_fits hready.tidy h'.1 id nofun
  · obtain ⟨hfits', -, hwr⟩ := h'
    obtain ⟨old, hold, rfl⟩ := hwr wr rfl
    have hview : d.office.view = h.db := by rw [hd]; rfl
    rw [hview] at hold
    refine ⟨hfits'.db.tidy hready.tidy, hfits'.cluster.kept id, fun id wr heq => ?_⟩
    cases heq
    exact hguarded old hold

/-- **Step of a request.** -/
theorem reserved_respond {ctx : RequestContext}
    (hclaims : ctx.claims.systemRole ≠ .platformAdmin) {d : Desk} (hd : d.office = h.office)
    (hguarded : req.Guarded h ctx.claims) :
    (req.respond lib ctx).Ensures attend (fun r d' => Reserved h ctx.claims r d'.office) d := by
  by_cases hreq : ∃ id reqId note, req = .approveWorkflow id reqId note
  · obtain ⟨id, reqId, note, rfl⟩ := hreq
    exact reserved_approve hready hd hguarded
  · have hother : ∀ id reqId note, req ≠ .approveWorkflow id reqId note :=
      fun id reqId note heq => hreq ⟨id, reqId, note, heq⟩
    have hrespond : req.respond lib ctx = (req.handle lib ctx).unwrap fun _ => succeed none := by
      cases req with
      | approveWorkflow id reqId note => exact absurd rfl (hother id reqId note)
      | _ => rfl
    have hputs : ¬req.Puts ctx.claims := by
      cases req with
      | updatePolicy _ | generateToken => exact hguarded.elim
      | createPolicy _ => exact hclaims
      | approveWorkflow id reqId note => exact absurd rfl (hother id reqId note)
      | _ => exact id
    have hfits : (req.handle lib ctx).Ensures attend
        (fun _ d' => Fits (req.ActsOn lib ctx.workspaceId h.office) (req.Puts ctx.claims)
          h.office d'.office) d :=
      fits_handle lib ctx req hready.tidy rfl hd
    rw [hrespond]
    exact hfits.unwrap
      (fun _ _ h' => .of_fits hready.tidy h' hputs nofun)
      fun _ _ h' => .of_fits hready.tidy h' hputs nofun

theorem reserved_serve (hclaims : claims.systemRole ≠ .platformAdmin)
    {header : String} (hguarded : Guarded lib h (.request claims header req, turns)) :
    (req.serve lib claims header).Ensures attend
      (fun r d' => Reserved h claims r d'.office) (h.desk turns) := by
  have hgate := ensures_workspaceAuthMiddleware (d := h.desk turns) req.requiredRole claims header
    req.pathId
  unfold ApiRequest.serve Program.Ensures at *
  cases hrun : (workspaceAuthMiddleware req.requiredRole claims header req.pathId).run attend
      (h.desk turns) with
  | mk r d₁ =>
    rw [hrun] at hgate
    obtain ⟨hoffice, hctx⟩ := hgate
    cases r with
    | error err =>
      rw [Program.run_unwrap_error (congrArg Prod.fst hrun), hrun]
      refine ⟨?_, ?_, nofun⟩
      · rw [hoffice]
        exact hready.tidy
      · rw [hoffice]
        exact fun _ _ hp => hp
    | ok ctx =>
      have hsame := hctx ctx rfl
      rw [Program.run_unwrap_ok (congrArg Prod.fst hrun), hrun]
      have hrespond : (req.respond lib ctx).Ensures attend
          (fun r d' => Reserved h ctx.claims r d'.office) d₁ :=
        reserved_respond hready (hsame.symm ▸ hclaims) hoffice
          (hsame.symm ▸ hguarded ⟨ctx, d₁, hrun⟩)
      rw [hsame] at hrespond
      exact hrespond

theorem gated_request (hclaims : claims.systemRole ≠ .platformAdmin)
    {header : String} (hguarded : Guarded lib h (.request claims header req, turns)) :
    Gated lib h (.request claims header req, turns) ∧
      (h.next lib (.request claims header req, turns)).Ready := by
  have hserve : Reserved h claims _ _ := reserved_serve hready hclaims hguarded
  refine ⟨fun key p hp hnew => absurd (hserve.policies key p hp) hnew, hserve.tidy, ?_⟩
  intro a ha
  rcases List.mem_append.mp ha with ha | ha
  · exact hready.proper a ha
  · -- the request was approved
    unfold House.given at ha
    split at ha
    · obtain rfl := List.mem_singleton.mp ha
      exact hserve.approval _ _ ‹_›
    · cases ha

theorem gated_unscoped {req : OpenRequest} (hreq : ∀ dto, req ≠ .addWs dto) :
    Gated lib h (.unscoped claims req, turns) ∧
      (h.next lib (.unscoped claims req, turns)).Ready := by
  have hcalm : Calm h.office _ := (quiet_unscoped lib claims req hreq).calm (h.desk turns) rfl
  refine ⟨fun key p hp hnew => absurd ?_ hnew, fun id ws hws => ?_, hready.proper⟩
  · change Table.get (Office.cluster _).store.policies key = some p at hp
    rw [hcalm.cluster] at hp
    exact hp
  · change AList.lookup id (Office.db _).workspaces = some ws at hws
    rw [hcalm.db] at hws
    exact hready.tidy id ws hws

variable {n : ℕ}

/-- The goroutine of an approval changes policies of the workspace of its record only. -/
theorem gated_execute (hguarded : Guarded lib h (.execute n, turns)) :
    Gated lib h (.execute n, turns) ∧ (h.next lib (.execute n, turns)).Ready := by
  unfold Gated
  cases ha : h.approvals[n]? with
  | none =>
    simp only [House.next, ha]
    exact ⟨fun key p hp hnew => absurd hp hnew, hready⟩
  | some a =>
    simp only [House.next, ha]
    have hfits : Fits (ActsOnRecord lib.codec h.db a.request) True h.office _ :=
      fits_execute (d := h.desk turns) hready.tidy a.id (.refl rfl) rfl
    refine ⟨fun key p hp hnew wsId howns => ⟨a, ha, ?_, ?_⟩, hfits.db.tidy hready.tidy, ?_⟩
    · have hbefore : Owns h.db wsId key.ns := by
        obtain ⟨ws', hws', hns⟩ := howns
        obtain ⟨ws, hws, hsame⟩ := hfits.db.rows wsId ws' hws'
        exact ⟨ws, hws, hsame.symm.trans hns⟩
      have hchanged := hfits.cluster.policies key fun heq => hnew (heq.symm.trans hp)
      obtain ⟨rec, hrec, rfl⟩ := (hchanged wsId).mp hbefore
      exact (hguarded a ha rec hrec).symm
    · exact hready.proper a (List.mem_of_getElem? ha)
    · exact fun b hb => hready.proper b (List.mem_of_mem_eraseIdx hb)

/-- **Step.** A guarded event is gated and keeps the house ready. -/
theorem gated_of_guarded (e : ApiEvent) (hordinary : Ordinary e)
    (hguarded : Guarded lib h e) : Gated lib h e ∧ (h.next lib e).Ready := by
  obtain ⟨happening, turns⟩ := e
  cases happening with
  | request claims header req => exact gated_request hready hordinary hguarded
  | unscoped claims req => exact gated_unscoped hready hguarded
  | execute n => exact gated_execute hready hguarded

end

/-- **The approval gate.** In every sequence of requests and goroutines that nobody with the rights
of a platform admin takes part in and whose events are all guarded, policies of a workspace are
created and changed only by executing properly approved requests of that workspace. -/
theorem gated_along (lib : ApiLibrary) (h : House) (hready : h.Ready) (events : List ApiEvent)
    (hguarded : AlongSteps (House.next lib) (fun h e => Ordinary e ∧ Guarded lib h e) h events) :
    AlongSteps (House.next lib) (Gated lib) h events :=
  (hguarded.invariant (Q := Gated lib) (I := House.Ready)
    (fun _ e hready hstep => gated_of_guarded hready e hstep.1 hstep.2) hready).1

/-! ## Runs -/

/-- Workspace 1 has an admin and a viewer, workspace 2 another viewer. -/
def gatehouse : House where
  db :=
    { users := Go.GoMap.ofPairs [("a", {}), ("v", {}), ("w", {})]
      workspaces := Go.GoMap.ofPairs [("1", { ns := "wf-1" }), ("2", { ns := "wf-2" })]
      members := Go.GoMap.ofPairs
        [("m0", { workspaceId := "1", userId := "a", role := .admin }),
          ("m1", { workspaceId := "1", userId := "v", role := .viewer }),
          ("m2", { workspaceId := "2", userId := "w", role := .viewer })] }
  cluster := { namespaces := ["wf-1", "wf-2"] }

theorem ready_gatehouse : gatehouse.Ready where
  tidy := by
    have hall : ∀ r ∈ gatehouse.db.workspaces.pairs, r.2.ns = namespaceOf r.1 := by decide
    exact fun id ws h => hall (id, ws) (Go.GoMap.mem_pairs.mpr h)
  proper := by simp [gatehouse]

/-- No call fails, and every identifier is the same. -/
def smoothly (happening : Happening) : ApiEvent := (happening, fun _ => { fresh := "t" })

/-- The viewer asks for a policy. -/
def asked : ApiEvent :=
  smoothly (.request { userId := "v" } "1" (.createPolicy { name := "web", action := "Allow" }))

/-- Somebody approves it, with the header naming a workspace of theirs. -/
def approvedBy (userId header : String) : ApiEvent :=
  smoothly (.request { userId := userId } header (.approveWorkflow header "t" ""))

/-- The policy comes into force after the approval of the admin. -/
theorem gated_along_approval :
    let events := [asked, approvedBy "a" "1", smoothly (.execute 0)]
    ((events.foldl (House.next plainLibrary) gatehouse).cluster.store.policies.get
        ⟨"wf-1", "web"⟩).isSome = true ∧
      AlongSteps (House.next plainLibrary) (Gated plainLibrary) gatehouse events := by
  intro events
  refine ⟨by decide +kernel, gated_along plainLibrary gatehouse ready_gatehouse events ?_⟩
  refine ⟨⟨by simp [asked, smoothly, Ordinary], fun _ => trivial⟩,
    ⟨by simp [approvedBy, smoothly, Ordinary], fun _ wr hwr => ?_⟩, ⟨trivial, ?_⟩, trivial⟩
  · have hrequest : ((gatehouse.next plainLibrary asked).db.requests.lookup "t").map
        (fun wr => (wr.workspaceId, wr.requestedBy)) = some ("1", "v") := by decide +kernel
    have hmember : (gatehouse.next plainLibrary asked).db.membership "1" "a" =
        some ("m0", { workspaceId := "1", userId := "a", role := .admin }) := by decide +kernel
    rw [hwr] at hrequest
    obtain ⟨hws, hby⟩ := Prod.mk.inj (Option.some.inj hrequest)
    rw [hws, hby]
    exact ⟨⟨"m0", _, hmember, rfl, le_refl _⟩, by decide⟩
  · have hrecord : ∀ a ∈ ((gatehouse.next plainLibrary asked).next plainLibrary
        (approvedBy "a" "1")).approvals, a.request.workspaceId = "1" ∧
          a.request.payload = "t" := by decide +kernel
    have hlive : (live PolicyRecord.deleted ((gatehouse.next plainLibrary asked).next plainLibrary
        (approvedBy "a" "1")).db.policies.rows "t").map PolicyRecord.workspaceId = some "1" := by
      decide +kernel
    rintro a ha rec ⟨-, policyId, hpayload, hrec⟩
    obtain ⟨hws, htext⟩ := hrecord a (List.mem_of_getElem? ha)
    cases hpayload
    rw [htext] at hrec
    rw [hrec] at hlive
    exact (Option.some.inj hlive).trans hws.symm

/-- A step that puts a new policy of a workspace in force, without a proper approval. -/
theorem not_gated {e : ApiEvent} (key : NamespacedName) (wsId : String)
    (hafter : ((h.next lib e).cluster.store.policies.get key).isSome = true)
    (hbefore : (h.cluster.store.policies.get key).isNone = true)
    (howns : ((h.next lib e).db.workspaces.lookup wsId).map Workspace.ns = some key.ns)
    (himproper : ∀ a, h.executes e = some a → ¬a.Proper) : ¬Gated lib h e := by
  intro hgated
  obtain ⟨p, hp⟩ := Option.isSome_iff_exists.mp hafter
  rw [Option.isNone_iff_eq_none] at hbefore
  obtain ⟨ws, hws, hns⟩ := Option.map_eq_some_iff.mp howns
  obtain ⟨a, ha, -, hproper⟩ := hgated key p hp (by simp [hbefore]) wsId ⟨ws, hws, hns⟩
  exact himproper a ha hproper

/-- A viewer puts a policy in force by a `PUT`; a viewer approves their own request; and a viewer
of another workspace approves it. No call fails. -/
theorem gate_bypassed :
    ¬AlongSteps (House.next plainLibrary) (Gated plainLibrary) gatehouse
        [smoothly (.request { userId := "v" } "1"
          (.updatePolicy { name := "web", action := "Allow" }))] ∧
      ¬AlongSteps (House.next plainLibrary) (Gated plainLibrary) gatehouse
        [asked, approvedBy "v" "1", smoothly (.execute 0)] ∧
      ¬AlongSteps (House.next plainLibrary) (Gated plainLibrary) gatehouse
        [asked, approvedBy "w" "2", smoothly (.execute 0)] := by
  refine ⟨?_, ?_, ?_⟩
  · rintro ⟨hstep, -⟩
    refine not_gated ⟨"wf-1", "web"⟩ "1" (by decide +kernel)
      (by decide +kernel) (by decide +kernel) (fun a ha => by cases ha) hstep
  · rintro ⟨-, -, hstep, -⟩
    have hself : ∀ a ∈ ((gatehouse.next plainLibrary asked).next plainLibrary
        (approvedBy "v" "1")).approvals, a.reviewerId = a.request.requestedBy := by decide +kernel
    refine not_gated ⟨"wf-1", "web"⟩ "1" (by decide +kernel)
      (by decide +kernel) (by decide +kernel) (fun a ha hproper => ?_) hstep
    exact hproper.2 (hself a (List.mem_of_getElem? ha))
  · rintro ⟨-, -, hstep, -⟩
    have hstranger : ∀ a ∈ ((gatehouse.next plainLibrary asked).next plainLibrary
        (approvedBy "w" "2")).approvals,
          a.db.membership a.request.workspaceId a.reviewerId = none := by decide +kernel
    refine not_gated ⟨"wf-1", "web"⟩ "1" (by decide +kernel)
      (by decide +kernel) (by decide +kernel) (fun a ha hproper => ?_) hstep
    obtain ⟨⟨key, m, hmember, -⟩, -⟩ := hproper
    cases (hstranger a (List.mem_of_getElem? ha)).symm.trans hmember

end Wireflow.Server
