/-
# Isolation of tenants

`WorkspaceAuthMiddleware` checks the role in one workspace, and the handler acts on what the path,
the body or a global name says. `ApiRequest.ActsOn` is the workspace that a handler acts on; all
that it changes belongs to that one (`fits_handle`). So a request stays within the caller's
workspaces exactly if the caller is an active member there (`isolated_iff`).
-/

import Wireflow.Theorems.Server.PolicyAgreement
import Wireflow.Theorems.Server.Tenancy

namespace Wireflow.Server

open Semantics Invitations Fitting
open Wireflow.Api

variable {T : String → Prop} {puts : Prop} {o : Office} {d : Desk}

/-! ## Workspaces and members -/

theorem fitting_deleteTenant (htidy : Tidy o.db) {id : String} {row : Workspace}
    (hrow : o.db.workspaces.lookup id = some row) :
    Fitting (· = id) puts o (deleteTenant (namespaceOf id)) := by
  unfold deleteTenant
  split_ifs
  · exact fitting_ret _
  · refine (fitting_write htidy hrow rfl rfl rfl).bind fun r => ?_
    cases r with
    | ok _ => exact fitting_ret _
    | error err =>
      dsimp only
      split_ifs <;> exact fitting_ret _

theorem fitting_deleteWorkspace (htidy : Tidy o.db) (id : String) :
    Fitting (· = id) puts o (deleteWorkspace id) := by
  refine fitting_getWorkspace fun ws row hrow hns => ?_
  rw [hns]
  refine (fitting_deleteTenant htidy hrow).unwrap fun _ => Fitting.transaction ?_
  exact (fitting_db (.deleteByWorkspace id) fun _ => Iff.rfl).unwrap fun _ =>
    fitting_db (.deleteWorkspace id) fun _ => Iff.rfl

theorem fitting_handleAddMember (id userId : String) (role : WorkspaceRole) :
    Fitting (· = id) puts o (handleAddMember id userId role) := by
  refine (fitting_db (.getMembership id userId) trivial).bind fun r => ?_
  cases r with
  | ok _ => exact fitting_ret _
  | error _ =>
    exact (fitting_db (.addMember _) fun _ => Iff.rfl).unwrap fun _ => fitting_ret _

theorem fitting_checkAssignedRole (wsId callerId : String) (role : WorkspaceRole) (caller : User) :
    Fitting T puts o (checkAssignedRole wsId callerId role caller) := by
  unfold checkAssignedRole
  split_ifs
  · exact fitting_ret _
  · refine (fitting_db (.getMembership wsId callerId) trivial).bind fun r => ?_
    cases r with
    | error _ => exact fitting_ret _
    | ok row =>
      dsimp only
      split_ifs <;> exact fitting_ret _

theorem fitting_handleRemoveMember (ctx : RequestContext) (id userId : String) :
    Fitting (· = id) puts o (handleRemoveMember ctx id userId) := by
  have hremove : Fitting (· = id) puts o (removeMember id userId) :=
    fitting_db (.softRemove id userId) fun _ => Iff.rfl
  unfold handleRemoveMember
  split_ifs
  · exact hremove
  · cases requireWorkspaceAdmin ctx with
    | error err => exact fitting_ret _
    | ok _ => exact hremove

/-! ## Invitations

They are neither workspaces nor memberships. -/

theorem fitting_create (wsId inviterId email : String) (role : WorkspaceRole) :
    Fitting T puts o (create wsId inviterId email role) := by
  refine (fitting_db (.getUser inviterId) trivial).mapError.unwrap fun inviter => ?_
  have hcheck : Fitting T puts o (checkInviter wsId inviterId role inviter) := by
    unfold checkInviter
    split_ifs
    · exact fitting_ret _
    · refine (fitting_db (.getMembership wsId inviterId) trivial).mapError.unwrap fun row => ?_
      dsimp only
      split_ifs <;> exact fitting_ret _
  have habsent : Fitting T puts o ((DbCall.getPendingByEmailAndWorkspace email wsId).issue >>=
      checkAbsent "a pending invitation already exists for this email") := by
    refine (fitting_db (.getPendingByEmailAndWorkspace email wsId) trivial).bind fun r => ?_
    cases r with
    | ok _ => exact fitting_ret _
    | error err =>
      unfold checkAbsent
      dsimp only
      split_ifs <;> exact fitting_ret _
  exact hcheck.unwrap fun _ => habsent.unwrap fun _ =>
    (fitting_call .generateToken trivial).unwrap fun _ =>
      (fitting_call .now trivial).bind fun _ => fitting_db (.createInvitation _) trivial

theorem fitting_revoke (callerId id : String) :
    Fitting T puts o (revoke callerId id) := by
  refine (fitting_db (.findInvitation id) trivial).mapError.unwrap fun inv =>
    (fitting_db (.getUser callerId) trivial).mapError.unwrap fun caller =>
      unwrap ?_ fun _ => fitting_db (.updateInvitation id .revoked) trivial
  unfold checkRevoker
  split_ifs
  · exact fitting_ret _
  · refine (fitting_db (.getMembership _ callerId) trivial).mapError.unwrap fun row => ?_
    dsimp only
    split_ifs <;> exact fitting_ret _

/-! ## Peers, peerings and tokens -/

/-- `UpdatePeer` acts on the namespace in the body. -/
theorem fitting_updatePeer (dto : PeerUpdate) :
    Fitting (Owns o.db · dto.ns) puts o (updatePeer dto) := by
  refine fitting_getPeer fun p hkey => fitting_kube
    (.of_writes rfl nofun fun ns hns w => ?_)
  obtain rfl : dto.ns = ns := (congrArg NamespacedName.ns hkey).symm.trans (Option.some.inj hns)
  exact Iff.rfl

section Workspace

theorem fitting_inPeerNamespace (ctx : RequestContext)
    (act : String → OfficeProg (Except GoError Unit))
    (hact : ∀ row, o.db.workspaces.lookup ctx.workspaceId = some row →
      Fitting (· = ctx.workspaceId) puts o (act (namespaceOf ctx.workspaceId))) :
    Fitting (· = ctx.workspaceId) puts o (inPeerNamespace ctx act) :=
  fitting_getWorkspace fun _ row hrow hns => hns ▸ hact row hrow

variable (htidy : Tidy o.db) {wsId : String} {row : Workspace}
  (hrow : o.db.workspaces.lookup wsId = some row)

include htidy hrow

theorem fitting_annotatePeer (change : Labels → Labels) (name : String) :
    Fitting (· = wsId) puts o (annotatePeer change (namespaceOf wsId) name) := by
  refine fitting_getPeer fun p hkey => fitting_write htidy hrow rfl rfl ?_
  exact congrArg (some ∘ NamespacedName.ns) hkey

theorem fitting_deletePeer (name : String) :
    Fitting (· = wsId) puts o (deletePeer (namespaceOf wsId) name) := by
  refine fitting_getPeer fun _ _ =>
    (fitting_write htidy hrow rfl rfl rfl).unwrap fun _ =>
      bind ?_ fun _ => fitting_ret _
  refine (fitting_read (.getConfigMap _) rfl rfl rfl).bind fun r => ?_
  cases r with
  | error _ => exact fitting_ret _
  | ok _ =>
    exact (fitting_write htidy hrow rfl rfl rfl).bind fun _ =>
      fitting_ret _

theorem fitting_createToken (token : String) :
    Fitting (· = wsId) puts o (createToken (namespaceOf wsId) token) := by
  refine (fitting_read (.getToken _) rfl rfl rfl).bind fun r => ?_
  cases r with
  | ok _ => exact fitting_ret _
  | error err =>
    dsimp only
    split_ifs
    · exact (fitting_call .now trivial).bind fun _ =>
        fitting_write htidy hrow rfl rfl rfl
    · exact fitting_ret _

omit hrow

theorem fitting_applyDirect (hputs : puts) (codec : PolicyCodec) (operatorId operatorName : String)
    (dto : PolicyDto) :
    Fitting (· = wsId) puts o (applyDirect codec wsId operatorId operatorName dto) := by
  refine fitting_getWorkspace fun ws row hrow hns => ?_
  rw [hns]
  refine (fitting_applyPolicy htidy hrow hputs rfl).unwrap fun _ =>
    (fitting_db (.getPolicyByName wsId dto.name) trivial).bind fun found =>
      bind ?_ fun _ => fitting_ret _
  unfold saveRecord
  split_ifs
  · exact (fitting_db (.createPolicy _) trivial).bind fun _ => fitting_ret _
  · exact (fitting_db (.updatePolicy _ _) trivial).bind fun _ => fitting_ret _

theorem fitting_deletePolicy (name : String) :
    Fitting (· = wsId) puts o (deletePolicy wsId name) := by
  refine fitting_getWorkspace fun ws row hrow hns => ?_
  rw [hns]
  refine (fitting_db (.getPolicyByName wsId name) trivial).bind fun found =>
    (fitting_write htidy hrow rfl rfl rfl).bind fun _ =>
      (fitting_db (.deletePolicy wsId name) trivial).unwrap fun _ =>
        bind ?_ fun _ => fitting_ret _
  cases found with
  | error _ => exact fitting_ret _
  | ok row =>
    unfold cleanUpRequest
    dsimp only
    split_ifs
    · exact fitting_ret _
    · exact (fitting_db (.deleteRequest _) trivial).bind fun _ => fitting_ret _

theorem fitting_generateToken (hputs : puts) (codec : PolicyCodec) :
    Fitting (· = wsId) puts o (generateToken codec wsId) := by
  unfold generateToken
  split_ifs
  · exact fitting_ret _
  · refine fitting_getWorkspace fun ws row hrow hns => ?_
    rw [hns]
    exact (fitting_call .generateToken trivial).unwrap fun token =>
      (fitting_createToken htidy hrow token).unwrap fun _ =>
        (fitting_applyDirect htidy hputs codec "" "" _).unwrap fun _ => fitting_ret _

theorem fitting_deleteToken (token : String) :
    Fitting (· = wsId) puts o (deleteToken wsId token) := by
  unfold deleteToken
  split_ifs
  · exact fitting_ret _
  · refine fitting_getWorkspace fun ws row hrow hns => ?_
    rw [hns]
    refine (fitting_write htidy hrow rfl rfl rfl).bind fun r => ?_
    cases r with
    | ok _ => exact fitting_ret _
    | error err =>
      dsimp only
      split_ifs <;> exact fitting_ret _

/-- A peering concerns the caller's workspace and the one in the body. -/
theorem fitting_createPeering (dto : PeeringDto) :
    Fitting (fun w => w = wsId ∨ Owns o.db w dto.namespaceB) puts o (createPeering wsId dto) := by
  refine fitting_getWorkspace fun ws row hrow hns => ?_
  rw [hns]
  have hnetwork : Fitting (fun w => w = wsId ∨ Owns o.db w dto.namespaceB) puts o
      (defaultNetwork (namespaceOf wsId)) := by
    refine (fitting_read (.listNetworks _) rfl rfl rfl).unwrap fun networks => ?_
    split_ifs <;> exact fitting_ret _
  refine hnetwork.mapError.unwrap fun netA => mapError (fitting_kube ?_)
  exact .createPeering _ fun w => or_congr_left (owns_namespaceOf_iff htidy hrow w)

end Workspace

/-- A peering is deleted by its name alone. -/
theorem fitting_deletePeering (name : String) :
    Fitting (fun w => ∃ p, o.cluster.peerings.lookup name = some p ∧ p.Joins o.db w) puts o
      (deletePeering name) := by
  refine (fitting_read (.getPeering name) rfl rfl rfl).unwrap fun _ =>
    fitting_kube (.deletePeering fun p hp w => ?_)
  constructor
  · exact fun hjoins => ⟨p, hp, hjoins⟩
  · rintro ⟨q, hq, hjoins⟩
    cases hp.symm.trans hq
    exact hjoins

/-! ## Approvals -/

theorem fitting_submitWorkflow (req : SubmitWorkflowReq) : Fitting T puts o (submitWorkflow req) :=
  (fitting_db (.createRequest _) trivial).mapError

theorem fitting_pendingRequest (verb id : String) : Fitting T puts o (pendingRequest verb id) := by
  refine (fitting_db (.getRequest id) trivial).mapError.unwrap fun wr => ?_
  split_ifs <;> exact fitting_ret _

theorem fitting_approve (id reviewerId note : String) :
    Fitting T puts o (approve id reviewerId note) :=
  (fitting_pendingRequest _ id).unwrap fun _ =>
    (fitting_db (.updateStatus _ _ _) trivial).unwrap fun _ => fitting_ret _

theorem fitting_recordOutcome (id : String) (outcome : Except GoError Unit) :
    Fitting T puts o (recordOutcome id outcome) := by
  cases outcome with
  | error err => exact (fitting_db (.updateStatus _ _ _) trivial).bind fun _ => fitting_ret _
  | ok _ => exact (fitting_db (.updateStatus _ _ _) trivial).bind fun _ => fitting_ret _

/-- A request as an approval finds it. -/
theorem ensures_pendingRequest (verb id : String) :
    (pendingRequest verb id).Ensures attend (fun r d' => d' = d.next d.office ∧
      ∀ wr, r = .ok wr → d.office.view.requests.lookup id = some wr) d := by
  refine ensures_query_unwrap rfl (fun err => ⟨rfl, nofun⟩) fun wr hwr => ?_
  split_ifs
  · refine ⟨rfl, fun wr' h => ?_⟩
    cases h
    exact (foundRow_map_eq_ok hwr).1
  · exact ⟨rfl, nofun⟩

/-- An approval hands on the request that it has found, and writes nothing but its status. -/
theorem ensures_approve (id reviewerId note : String) :
    (approve id reviewerId note).Ensures attend (fun r d' =>
      d'.office.view.policies = d.office.view.policies ∧
        ∀ wr, r = .ok wr → ∃ old, d.office.view.requests.lookup id = some old ∧
          wr = withStatus .approved
            { reviewedBy := some reviewerId, reviewNote := some note } old) d := by
  refine (ensures_pendingRequest "approve" id).unwrap (fun err d₁ h => ?_) fun wr d₁ h => ?_
  · exact ⟨by rw [h.1, Desk.next_office], nofun⟩
  · have hfound := h.2 wr rfl
    rw [h.1]
    have hwrite : (DbCall.updateStatus id .approved
        { reviewedBy := some reviewerId, reviewNote := some note }).issue.Ensures attend
        (fun _ d' => d'.office.view.policies = d.office.view.policies) (d.next d.office) :=
      (sameBut_execOffice _ _ _).policies (by simp [DbCall.writes])
    refine hwrite.unwrap (fun err d₂ h₂ => ⟨h₂, nofun⟩) fun _ d₂ h₂ => ?_
    refine ⟨h₂, fun wr' h => ⟨wr, hfound, ?_⟩⟩
    cases h
    rfl

/-- The record that the execution of a request puts in force. -/
def Enforces (codec : PolicyCodec) (db : Database) (wr : WorkflowRequest) (rec : PolicyRecord) :
    Prop :=
  executorKey wr.resourceType wr.action = executorKey "policy" "create" ∧
    ∃ policyId, codec.unmarshalPayload wr.payload = .ok policyId ∧
      live PolicyRecord.deleted db.policies.rows policyId = some rec

theorem Enforces.unique {codec : PolicyCodec} {db : Database} {wr : WorkflowRequest}
    {rec rec' : PolicyRecord} (h : Enforces codec db wr rec) (h' : Enforces codec db wr rec') :
    rec = rec' := by
  obtain ⟨-, policyId, hpayload, hrec⟩ := h
  obtain ⟨-, policyId', hpayload', hrec'⟩ := h'
  cases hpayload.symm.trans hpayload'
  exact Option.some.inj (hrec.symm.trans hrec')

/-- The workspace of the record that an execution puts in force. -/
def ActsOnRecord (codec : PolicyCodec) (db : Database) (wr : WorkflowRequest) (w : String) :
    Prop :=
  ∃ rec, Enforces codec db wr rec ∧ w = rec.workspaceId

section Approval

variable {codec : PolicyCodec} {wr : WorkflowRequest} (htidy : Tidy o.db)

include htidy

/-- The executor acts on the workspace of the record. -/
theorem fits_applyRecord {policyId : String}
    (hfits : Fits (ActsOnRecord codec o.db wr) True o d.office)
    (hsame : d.office.view.policies = o.db.policies)
    (henforces : ∀ rec, live PolicyRecord.deleted o.db.policies.rows policyId = some rec →
      Enforces codec o.db wr rec) :
    (applyRecord codec policyId).Ensures attend
      (fun _ d' => Fits (ActsOnRecord codec o.db wr) True o d'.office) d := by
  refine ensures_query_unwrap rfl (fun _ => hfits) fun rec hrec => ?_
  have hrec : live PolicyRecord.deleted o.db.policies.rows policyId = some rec :=
    hsame ▸ (foundRow_map_eq_ok hrec).1
  have hacts : ActsOnRecord codec o.db wr = (· = rec.workspaceId) := by
    funext w
    refine propext ⟨?_, fun hw => ⟨rec, henforces rec hrec, hw⟩⟩
    rintro ⟨rec', h', rfl⟩
    rw [(henforces rec hrec).unique h']
  rw [hacts] at hfits ⊢
  refine run ?_ htidy hfits
  refine fitting_mapError_getWorkspace fun ws row hrow hns => ?_
  cases codec.unmarshalSpec rec.spec with
  | error err => exact fitting_ret _
  | ok spec =>
    refine bind (fitting_applyPolicy htidy hrow trivial hns) fun r => ?_
    cases r with
    | error err => exact (fitting_db (.updatePolicy _ _) trivial).bind fun _ => fitting_ret _
    | ok _ => exact fitting_db (.updatePolicy _ _) trivial

theorem fits_execute (id : String)
    (hfits : Fits (ActsOnRecord codec o.db wr) True o d.office)
    (hsame : d.office.view.policies = o.db.policies) :
    (execute (serverExecutors codec) id wr).Ensures attend
      (fun _ d' => Fits (ActsOnRecord codec o.db wr) True o d'.office) d := by
  unfold execute serverExecutors
  dsimp only
  split_ifs with hkey
  · refine (ensures_local (.logExecuting _ _) fun _ _ => rfl).bind fun _ d₁ hd₁ => ?_
    rw [hd₁]
    have hexecutor : (policyExecutor codec wr.payload).Ensures attend
        (fun _ d' => Fits (ActsOnRecord codec o.db wr) True o d'.office) (d.next d.office) := by
      unfold policyExecutor
      cases hpayload : codec.unmarshalPayload wr.payload with
      | error err => exact hfits
      | ok policyId =>
        exact fits_applyRecord htidy hfits hsame fun rec hrec => ⟨hkey, policyId, hpayload, hrec⟩
    exact hexecutor.bind fun r d₂ hd₂ => (fitting_recordOutcome id r).run htidy hd₂
  · exact (fitting_recordOutcome id _).run htidy hfits

/-- The workspace of the record that the approval of a stored request puts in force. -/
def ActsOnApproval (codec : PolicyCodec) (db : Database) (reqId w : String) : Prop :=
  ∃ wr, db.requests.lookup reqId = some wr ∧ ActsOnRecord codec db wr w

/-- So does an approval as a whole. -/
theorem fits_approveAndExecute {reqId : String} (htx : o.tx = none) (hd : d.office = o)
    (reviewerId note : String) :
    (approveAndExecute (serverExecutors codec) reqId reviewerId note).Ensures attend
      (fun _ d' => Fits (ActsOnApproval codec o.db reqId) True o d'.office) d := by
  have hstart : Fits (ActsOnApproval codec o.db reqId) True o d.office := by
    rw [hd]
    exact .refl htx
  have hview : d.office.view = o.db := by rw [hd, Office.view, htx, Option.getD_none]
  have hfits : (approve reqId reviewerId note).Ensures attend
      (fun _ d' => Fits (ActsOnApproval codec o.db reqId) True o d'.office) d :=
    (fitting_approve reqId reviewerId note).run htidy hstart
  have happrove := ensures_approve (d := d) reqId reviewerId note
  rw [hview] at happrove
  refine (hfits.and happrove).unwrap (fun _ _ h => h.1) fun wr d₁ h => ?_
  obtain ⟨hfits₁, hsame, hwr⟩ := h
  obtain ⟨old, hold, rfl⟩ := hwr wr rfl
  -- the status is not part of what an executor looks at
  have hacts : ActsOnApproval codec o.db reqId = ActsOnRecord codec o.db
      (withStatus .approved { reviewedBy := some reviewerId, reviewNote := some note } old) := by
    funext w
    refine propext ⟨?_, fun h => ⟨old, hold, h⟩⟩
    rintro ⟨wr, hwr, h⟩
    cases hold.symm.trans hwr
    exact h
  rw [hacts] at hfits₁ ⊢
  exact (fits_execute htidy reqId hfits₁ hsame).bind fun _ _ h => h

end Approval

/-! ## Requests -/

/-- The workspaces that a request is about; `wsId` is the one whose role was checked. -/
def ApiRequest.ActsOn (lib : ApiLibrary) (wsId : String) (o : Office) :
    ApiRequest → String → Prop
  | updateWs id _ => (· = id)
  | deleteWs id => (· = id)
  | addMember id _ _ => (· = id)
  | updateMemberRole id _ _ => (· = id)
  | removeMember id _ => (· = id)
  | updatePeer dto => (Owns o.db · dto.ns)
  | createPeering dto => fun w => w = wsId ∨ Owns o.db w dto.namespaceB
  | deletePeering name => fun w =>
      ∃ p, o.cluster.peerings.lookup name = some p ∧ p.Joins o.db w
  | approveWorkflow _ reqId _ => ActsOnApproval lib.codec o.db reqId
  | _ => (· = wsId)

/-- A request may put a policy in force. -/
def ApiRequest.Puts (claims : Claims) : ApiRequest → Prop
  | createPolicy _ => claims.systemRole = .platformAdmin
  | updatePolicy _ => True
  | generateToken => True
  | approveWorkflow _ _ _ => True
  | _ => False

theorem fitting_required {value text : String} {p : OfficeProg (Except GoError Unit)}
    (hp : Fitting T puts o p) : Fitting T puts o (required value text p) := by
  unfold required
  split_ifs
  · exact fitting_ret _
  · exact hp

theorem fitting_discard {α : Type} {p : OfficeProg (Except GoError α)} (hp : Fitting T puts o p) :
    Fitting T puts o (discard p) :=
  hp.unwrap fun _ => fitting_ret _

/-- **Footprint of a request.** All that a handler changes belongs to the workspaces that the
request is about, and few requests put policies in force. -/
theorem fits_handle (lib : ApiLibrary) (ctx : RequestContext) (req : ApiRequest)
    (htidy : Tidy o.db) (htx : o.tx = none) (hd : d.office = o) :
    Fits (req.ActsOn lib ctx.workspaceId o) (req.Puts ctx.claims) o
      ((req.handle lib ctx).run attend d).2.office := by
  have hstart : ∀ T puts, Fits T puts o d.office := fun T puts => hd.symm ▸ .refl htx
  cases req with
  | approveWorkflow id reqId note => exact fits_approveAndExecute htidy htx hd _ note
  | updateWs id dto =>
    refine (fitting_required (fitting_getWorkspace fun _ _ _ hns => ?_)).run htidy (hstart _ _)
    exact fitting_db _ ⟨fun _ => Iff.rfl, hns⟩
  | deleteWs id =>
    exact (fitting_required (fitting_deleteWorkspace htidy id)).run htidy (hstart _ _)
  | addMember id userId role =>
    exact (fitting_handleAddMember id userId role).run htidy (hstart _ _)
  | updateMemberRole id userId role =>
    refine (unwrap (fitting_db (.getUser _) trivial).mapError fun caller => ?_).run htidy
      (hstart _ _)
    exact (fitting_checkAssignedRole id _ role caller).unwrap fun _ =>
      fitting_db (.updateRole id userId role) fun _ => Iff.rfl
  | removeMember id userId =>
    exact (fitting_handleRemoveMember ctx id userId).run htidy (hstart _ _)
  | createInvitation id email role =>
    exact (fitting_discard (fitting_create id _ email role)).run htidy (hstart _ _)
  | revokeInvitation id invId => exact (fitting_revoke _ invId).run htidy (hstart _ _)
  | updatePeer dto => exact (fitting_updatePeer dto).run htidy (hstart _ _)
  | disablePeer name =>
    exact (fitting_inPeerNamespace ctx (Server.disablePeer · name) fun _ hrow =>
      fitting_annotatePeer htidy hrow _ name).run htidy (hstart _ _)
  | enablePeer name =>
    exact (fitting_inPeerNamespace ctx (Server.enablePeer · name) fun _ hrow =>
      fitting_annotatePeer htidy hrow _ name).run htidy (hstart _ _)
  | deletePeer name =>
    exact (fitting_inPeerNamespace ctx (Server.deletePeer · name) fun _ hrow =>
      fitting_deletePeer htidy hrow name).run htidy (hstart _ _)
  | createPolicy dto =>
    refine run ?_ htidy (hstart _ _)
    change Fitting _ _ o (handleCreatePolicy lib.codec ctx dto)
    unfold handleCreatePolicy
    -- without approval, only platform admins put policies in force
    split_ifs with hadmin
    · exact fitting_applyDirect htidy hadmin lib.codec _ _ dto
    · exact (fitting_db (.createPolicy _) trivial).unwrap fun _ =>
        (fitting_submitWorkflow _).unwrap fun _ => fitting_ret _
  | updatePolicy dto =>
    exact (fitting_applyDirect htidy trivial lib.codec _ _ dto).run htidy (hstart _ _)
  | deletePolicy name =>
    exact (fitting_required (fitting_deletePolicy htidy name)).run htidy (hstart _ _)
  | generateToken =>
    exact (fitting_discard (fitting_generateToken htidy trivial lib.codec)).run htidy (hstart _ _)
  | rmToken token => exact (fitting_required (fitting_deleteToken htidy _)).run htidy (hstart _ _)
  | submitWorkflow id resourceType resourceName action payload =>
    exact (fitting_discard (fitting_submitWorkflow _)).run htidy (hstart _ _)
  | rejectWorkflow id reqId note =>
    refine (unwrap (fitting_pendingRequest _ reqId) fun _ => ?_).run htidy (hstart _ _)
    exact fitting_db (.updateStatus _ _ _) trivial
  | createPeering dto =>
    exact (fitting_required (fitting_createPeering htidy dto)).run htidy (hstart _ _)
  | deletePeering name => exact (fitting_deletePeering name).run htidy (hstart _ _)

/-- The middleware changes nothing, and leaves the claims as they are. -/
theorem ensures_workspaceAuthMiddleware (role : WorkspaceRole) (claims : Claims)
    (header pathId : String) :
    (workspaceAuthMiddleware role claims header pathId).Ensures attend
      (fun r d' => d'.office = d.office ∧ ∀ ctx, r = .ok ctx → ctx.claims = claims) d := by
  unfold workspaceAuthMiddleware
  generalize (if header = "" then pathId else header) = wsId
  dsimp only
  have hrole : ((requireWorkspaceRole wsId claims.userId role).mapError
      fun _ => forbidden "权限不足").Ensures attend (fun _ d' => d'.office = d.office) d :=
    (ensures_requireWorkspaceRole wsId claims.userId role).mapError (fun _ _ h => h.1)
      fun _ _ h => h.1
  split_ifs
  · exact ⟨rfl, fun _ h => nomatch h⟩
  · refine ⟨rfl, fun _ h => ?_⟩
    cases h
    rfl
  · refine hrole.unwrap (fun _ _ h => ⟨h, fun _ h => nomatch h⟩) fun _ _ h => ⟨h, fun _ h => ?_⟩
    cases h
    rfl

/-! ## Isolation -/

/-- Everything that changed between two offices belongs to a workspace in which the caller is an
active member with at least a role. -/
def Isolated (callerId : String) (role : WorkspaceRole) (o o' : Office) : Prop :=
  ∀ thing, Changed o o' thing → ∃ w, Concerns o o' thing w ∧ ActiveMember o.db w callerId role

/-- **Isolation of tenants.** A request that passes the middleware stays within the workspaces of
the caller if and only if it changes nothing, or the caller is an active member, with the role
that the route asks for, of a workspace that the handler acts on. -/
theorem isolated_iff (lib : ApiLibrary) (req : ApiRequest) (claims : Claims) (header : String)
    {d d₁ : Desk} {ctx : RequestContext} (htx : d.office.tx = none) (htidy : Tidy d.office.db)
    (hpass : (workspaceAuthMiddleware req.requiredRole claims header req.pathId).run attend d =
      (.ok ctx, d₁)) :
    Isolated claims.userId req.requiredRole d.office
        ((req.handle lib ctx).run attend d₁).2.office ↔
      (∀ thing, ¬Changed d.office ((req.handle lib ctx).run attend d₁).2.office thing) ∨
        ∃ w, req.ActsOn lib ctx.workspaceId d.office w ∧
          ActiveMember d.office.db w claims.userId req.requiredRole := by
  have hsame : d₁.office = d.office := by
    have h := ensures_workspaceAuthMiddleware (d := d) req.requiredRole claims header req.pathId
    unfold Program.Ensures at h
    rw [hpass] at h
    exact h.1
  have hfits := fits_handle lib ctx req htidy htx hsame
  constructor
  · intro hisolated
    by_cases hchanged : ∃ thing, Changed d.office
        ((req.handle lib ctx).run attend d₁).2.office thing
    · obtain ⟨thing, hchanged⟩ := hchanged
      obtain ⟨w, hconcerns, hmember⟩ := hisolated thing hchanged
      exact .inr ⟨w, (hfits.concerns_iff hchanged w).mp hconcerns, hmember⟩
    · exact .inl fun thing h => hchanged ⟨thing, h⟩
  · rintro (hnone | ⟨w, hacts, hmember⟩) thing hchanged
    · exact absurd hchanged (hnone thing)
    · exact ⟨w, (hfits.concerns_iff hchanged w).mpr hacts, hmember⟩

/-- Two workspaces, of which the second one has a peer and a peering between its networks. A user
is an admin of the first one only. -/
def twoTenants : Office where
  db :=
    { users := Go.GoMap.ofPairs [("u", {})]
      workspaces := Go.GoMap.ofPairs [("1", { ns := "wf-1" }), ("2", { ns := "wf-2" })]
      members := Go.GoMap.ofPairs [("m", { workspaceId := "1", userId := "u", role := .admin })] }
  cluster :=
    { namespaces := ["wf-1", "wf-2"]
      store := { peers := Table.empty.put { metadata := { ns := "wf-2", name := "web" } } }
      peerings := Go.GoMap.ofPairs
        [("link", { namespaceA := "wf-2", networkA := "a", namespaceB := "wf-2",
                    networkB := "b", mode := "gateway" })] }

theorem tidy_twoTenants : Tidy twoTenants.db := by
  have hall : ∀ r ∈ twoTenants.db.workspaces.pairs, r.2.ns = namespaceOf r.1 := by decide
  exact fun id ws h => hall (id, ws) (Go.GoMap.mem_pairs.mpr h)

/-- The library of a server whose tokens are not looked at. -/
def plainLibrary : ApiLibrary where
  invitations := { verifyInviteToken := fun _ => true, equalFold := (· == ·) }
  codec := plainCodec
  generateSlug := id

/-- The admin renames their own workspace. -/
theorem isolated_iff_rename :
    Isolated "u" .admin twoTenants
      (((ApiRequest.updateWs "1" { displayName := "one" }).handle plainLibrary
        { claims := { userId := "u" }, workspaceId := "1"
          member := some { workspaceId := "1", userId := "u", role := .admin } }).run attend
            { office := twoTenants }).2.office :=
  (isolated_iff plainLibrary (.updateWs "1" { displayName := "one" }) { userId := "u" } ""
    (d := { office := twoTenants }) rfl tidy_twoTenants rfl).mpr
      (.inr ⟨"1", rfl, "m", _, rfl, rfl, le_refl _⟩)

/-- The admin gets through to a request that is not isolated. -/
def WithinReach (req : ApiRequest) : Prop :=
  ∃ ctx d₁, (workspaceAuthMiddleware req.requiredRole { userId := "u" } "1" req.pathId).run
      attend { office := twoTenants } = (.ok ctx, d₁) ∧
    ¬Isolated "u" req.requiredRole twoTenants
      ((req.handle plainLibrary ctx).run attend d₁).2.office

/-- With the header naming their own workspace, the admin deletes the other one by its path, edits
a peer by the namespace in the body, and deletes a peering by its name. -/
theorem others_within_reach :
    WithinReach (.deleteWs "2") ∧
      WithinReach (.updatePeer { ns := "wf-2", name := "web", displayName := "mine" }) ∧
      WithinReach (.deletePeering "link") := by
  have houtsider : ∀ role, ¬ActiveMember twoTenants.db "2" "u" role := by
    rintro role ⟨key, m, h, -⟩
    cases h
  have hrow : twoTenants.db.workspaces.lookup "2" = some { ns := "wf-2" } := rfl
  have howner : ∀ w, Owns twoTenants.db w "wf-2" → w = "2" := fun w =>
    (owns_namespaceOf_iff tidy_twoTenants hrow w).mp
  refine ⟨?_, ?_, ?_⟩
  · refine ⟨_, _, rfl, fun h => ?_⟩
    obtain ⟨w, rfl, hmember⟩ := h (.workspace "2") (by change _ ≠ _; decide)
    exact houtsider _ hmember
  · refine ⟨_, _, rfl, fun h => ?_⟩
    obtain ⟨w, hw, hmember⟩ := h (.peer ⟨"wf-2", "web"⟩) fun heq =>
      absurd (congrArg (Option.map fun p => p.metadata.annotations.lookup displayNameAnnotation)
        heq) (by decide)
    rw [howner w hw] at hmember
    exact houtsider _ hmember
  · refine ⟨_, _, rfl, fun h => ?_⟩
    obtain ⟨w, ⟨p, hp, hw⟩, hmember⟩ := h (.peering "link") (by change _ ≠ _; decide)
    have hside : Owns twoTenants.db w "wf-2" := by
      rcases hp with hp | hp
      · cases hp
        exact hw.elim id id
      · cases hp
    rw [howner w hside] at hmember
    exact houtsider _ hmember

end Wireflow.Server
