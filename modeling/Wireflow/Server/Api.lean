/-
# The HTTP API

The requests that change something: `ApiRequest` are those behind `WorkspaceAuthMiddleware`, and
`OpenRequest` those that ask for a valid token at most. A request stands for one whose token,
parameters and body are accepted by the router; everything else is turned away before a handler
runs.

`WorkspaceAuthMiddleware` takes the workspace whose role it checks from the header
`X-Workspace-Id`, and from the path if there is none. The handlers decide for themselves what they
act on.
-/

import Wireflow.Server.Invitations
import Wireflow.Server.Peers
import Wireflow.Server.Workflow

namespace Wireflow.Server

open Wireflow.Api

/-- What a token says about its bearer. -/
structure Claims where
  userId : String
  username : String := ""
  systemRole : SystemRole := .user

/-- What the handlers take from libraries. -/
structure ApiLibrary where
  invitations : InvitationLibrary
  codec : PolicyCodec
  /-- `GenerateSlug`. -/
  generateSlug : String → String

/-! ## Requests -/

/-- Path parameters and bodies of the requests behind `WorkspaceAuthMiddleware`; `id` is the
workspace in the path. -/
inductive ApiRequest
  | updateWs (id : String) (dto : WorkspaceDto)
  | deleteWs (id : String)
  | addMember (id userId : String) (role : WorkspaceRole)
  | updateMemberRole (id userId : String) (role : WorkspaceRole)
  | removeMember (id userId : String)
  | createInvitation (id email : String) (role : WorkspaceRole)
  | revokeInvitation (id invId : String)
  | updatePeer (dto : PeerUpdate)
  | disablePeer (name : String)
  | enablePeer (name : String)
  | deletePeer (name : String)
  | createPolicy (dto : PolicyDto)
  | updatePolicy (dto : PolicyDto)
  | deletePolicy (name : String)
  | generateToken
  | rmToken (token : String)
  | submitWorkflow (id resourceType resourceName action : String) (payload : Option String)
  | approveWorkflow (id reqId note : String)
  | rejectWorkflow (id reqId note : String)
  | createPeering (dto : PeeringDto)
  | deletePeering (name : String)

namespace ApiRequest

/-- The parameter `:id`, empty if the path has none. -/
def pathId : ApiRequest → String
  | updateWs id _ => id
  | deleteWs id => id
  | addMember id _ _ => id
  | updateMemberRole id _ _ => id
  | removeMember id _ => id
  | createInvitation id _ _ => id
  | revokeInvitation id _ => id
  | submitWorkflow id _ _ _ _ => id
  | approveWorkflow id _ _ => id
  | rejectWorkflow id _ _ => id
  | _ => ""

/-- The role that the route asks for. -/
def requiredRole : ApiRequest → WorkspaceRole
  | updateWs _ _ => .admin
  | deleteWs _ => .admin
  | addMember _ _ _ => .admin
  | updateMemberRole _ _ _ => .admin
  | createInvitation _ _ _ => .admin
  | revokeInvitation _ _ => .admin
  | _ => .viewer

end ApiRequest

/-! ## The middleware -/

/-- What the middleware leaves for the handlers. -/
structure RequestContext where
  claims : Claims
  workspaceId : String
  /-- `currentTeamMember`; platform admins have none. -/
  member : Option WorkspaceMember := none

def forbidden (text : String) : GoError := newError text

/-- `WorkspaceAuthMiddleware`. -/
def workspaceAuthMiddleware (role : WorkspaceRole) (claims : Claims) (header pathId : String) :
    OfficeProg (Except GoError RequestContext) :=
  let wsId := if header = "" then pathId else header
  if wsId = "" then
    fail (forbidden "workspace required: set X-Workspace-Id header or include :id in path")
  else if claims.systemRole = .platformAdmin then
    succeed { claims := claims, workspaceId := wsId }
  else ((requireWorkspaceRole wsId claims.userId role).mapError
      fun _ => forbidden "权限不足").unwrap fun member =>
    succeed { claims := claims, workspaceId := wsId, member := member }

/-! ## Handlers -/

/-- Go on if a parameter is not empty. -/
def required {α : Type} (value text : String) (p : OfficeProg (Except GoError α)) :
    OfficeProg (Except GoError α) :=
  if value = "" then fail (newError text) else p

/-- `handleAddMember`. -/
def handleAddMember (wsId userId : String) (role : WorkspaceRole) :
    OfficeProg (Except GoError Unit) :=
  (DbCall.getMembership wsId userId).issue >>= fun
    | .ok _ => fail (newError "user is already a member of this workspace")
    | .error _ => addMember wsId userId role

/-- Nobody gives away more than they have. A caller without a membership passes. -/
def checkAssignedRole (wsId callerId : String) (role : WorkspaceRole) (caller : User) :
    OfficeProg (Except GoError Unit) :=
  if caller.systemRole = .platformAdmin then succeed ()
  else (DbCall.getMembership wsId callerId).issue >>= fun
    | .error _ => succeed ()
    | .ok (_, member) =>
        if getRoleWeight member.role < getRoleWeight role then
          fail (forbidden "cannot assign a role higher than your own")
        else succeed ()

/-- `handleUpdateMemberRole`. -/
def handleUpdateMemberRole (callerId wsId userId : String) (role : WorkspaceRole) :
    OfficeProg (Except GoError Unit) :=
  ((DbCall.getUser callerId).issue.mapError fun _ => newError "caller not found").unwrap
    fun caller => (checkAssignedRole wsId callerId role caller).unwrap
      fun _ => updateRole wsId userId role

/-- `requireWorkspaceAdmin`, which looks at the membership that the middleware has left and not at
the workspace. A platform admin by the database has none, and the handler panics. -/
def requireWorkspaceAdmin (ctx : RequestContext) : Except GoError Unit :=
  if ctx.claims.systemRole = .platformAdmin then .ok ()
  else match ctx.member with
    | none => .error { kind := .panic, text := "nil pointer dereference" }
    | some member =>
        if getRoleWeight member.role < getRoleWeight .admin then
          .error (forbidden "only workspace admins can perform this action")
        else .ok ()

/-- `handleRemoveMember`. -/
def handleRemoveMember (ctx : RequestContext) (wsId userId : String) :
    OfficeProg (Except GoError Unit) :=
  if ctx.claims.userId = userId then removeMember wsId userId
  else match requireWorkspaceAdmin ctx with
    | .error err => fail err
    | .ok _ => removeMember wsId userId

/-- `peerNamespace`, and what is then done there. -/
def inPeerNamespace (ctx : RequestContext) (act : String → OfficeProg (Except GoError Unit)) :
    OfficeProg (Except GoError Unit) :=
  (DbCall.getWorkspace ctx.workspaceId).issue.unwrap fun ws => act ws.ns

/-- `createOrUpdatePolicy` for a `POST`: only platform admins do without approval. -/
def handleCreatePolicy (codec : PolicyCodec) (ctx : RequestContext) (dto : PolicyDto) :
    OfficeProg (Except GoError Unit) :=
  if ctx.claims.systemRole = .platformAdmin then
    applyDirect codec ctx.workspaceId ctx.claims.userId ctx.claims.username dto
  else
    (submitPolicy codec ctx.workspaceId ctx.claims.userId ctx.claims.username dto).unwrap
      fun policyId =>
        (submitWorkflow
          { workspaceId := ctx.workspaceId
            requestedBy := ctx.claims.userId
            resourceType := "policy"
            resourceName := dto.name
            action := "create"
            payload := codec.marshalPayload policyId }).unwrap fun _ => succeed ()

/-- `createOrUpdatePolicy` for a `PUT`. -/
def handleUpdatePolicy (codec : PolicyCodec) (ctx : RequestContext) (dto : PolicyDto) :
    OfficeProg (Except GoError Unit) :=
  applyDirect codec ctx.workspaceId ctx.claims.userId ctx.claims.username dto

/-- `handleSubmitWorkflowRequest`. -/
def handleSubmitWorkflow (ctx : RequestContext)
    (wsId resourceType resourceName action : String) (payload : Option String) :
    OfficeProg (Except GoError Unit) :=
  (submitWorkflow
    { workspaceId := wsId
      requestedBy := ctx.claims.userId
      resourceType := resourceType
      resourceName := resourceName
      action := action
      payload := payload.getD "\x7b\x7d" }).unwrap fun _ => succeed ()

/-- Forget what a service returns. -/
def discard {α : Type} (p : OfficeProg (Except GoError α)) : OfficeProg (Except GoError Unit) :=
  p.unwrap fun _ => succeed ()

variable (lib : ApiLibrary)

/-- The handler of a request. An approval is carried out together with the goroutine that it
starts. -/
def ApiRequest.handle (ctx : RequestContext) :
    ApiRequest → OfficeProg (Except GoError Unit)
  | updateWs id dto =>
      required id "id is required" (updateWorkspace ctx.claims.username id dto)
  | deleteWs id => required id "id is required" (deleteWorkspace id)
  | addMember id userId role => handleAddMember id userId role
  | updateMemberRole id userId role => handleUpdateMemberRole ctx.claims.userId id userId role
  | removeMember id userId => handleRemoveMember ctx id userId
  | createInvitation id email role =>
      discard (Invitations.create id ctx.claims.userId email role)
  | revokeInvitation _ invId => Invitations.revoke ctx.claims.userId invId
  | updatePeer dto => Server.updatePeer dto
  | disablePeer name => inPeerNamespace ctx fun ns => Server.disablePeer ns name
  | enablePeer name => inPeerNamespace ctx fun ns => Server.enablePeer ns name
  | deletePeer name => inPeerNamespace ctx fun ns => Server.deletePeer ns name
  | createPolicy dto => handleCreatePolicy lib.codec ctx dto
  | updatePolicy dto => handleUpdatePolicy lib.codec ctx dto
  | deletePolicy name =>
      required name "policy name is required" (Server.deletePolicy ctx.workspaceId name)
  | generateToken => discard (Server.generateToken lib.codec ctx.workspaceId)
  | rmToken token =>
      required token "token is required" (deleteToken ctx.workspaceId (toLower token))
  | submitWorkflow id resourceType resourceName action payload =>
      handleSubmitWorkflow ctx id resourceType resourceName action payload
  | approveWorkflow _ reqId note =>
      approveAndExecute (serverExecutors lib.codec) reqId ctx.claims.userId note
  | rejectWorkflow _ reqId note => reject reqId ctx.claims.userId note
  | createPeering dto =>
      required dto.namespaceB "namespaceB is required" (Server.createPeering ctx.workspaceId dto)
  | deletePeering name => Server.deletePeering name

/-! ## Requests without a workspace -/

/-- `AddUser`: an account, and a membership with any role in the workspace of any namespace. -/
def addUser (username ns password : String) (role : WorkspaceRole) :
    OfficeProg (Except GoError Unit) :=
  transaction <|
    ((OfficeCall.encryptPassword password).issue.mapError
      (·.wrap "failed to hash password: ")).unwrap fun _ =>
        (DbCall.createUser { username := username }).issue.unwrap fun userId =>
          (DbCall.getWorkspaceByNamespace ns).issue.unwrap fun (wsId, _) =>
            addMember wsId userId role

/-- `Register` of an account. -/
def registerUser (username password : String) : OfficeProg (Except GoError Unit) :=
  (OfficeCall.encryptPassword password).issue.unwrap fun _ =>
    discard (DbCall.createUser { username := username }).issue

inductive OpenRequest
  | addWs (dto : WorkspaceDto)
  | addUser (username ns password : String) (role : WorkspaceRole)
  | deleteUser (id : String)
  | registerUser (username password : String)
  | acceptInvitation (token : String)
  | registerAndAccept (token username password : String)

/-- The handler of such a request, for a caller with the given claims. -/
def OpenRequest.handle (claims : Claims) :
    OpenRequest → OfficeProg (Except GoError Unit)
  | addWs dto =>
      discard (addWorkspace claims.userId claims.username (lib.generateSlug dto.slug) dto)
  | addUser username ns password role => Server.addUser username ns password role
  | deleteUser id => required id "\"name\" is empty" (DbCall.deleteUser id).issue
  | registerUser username password => Server.registerUser username password
  | acceptInvitation token => Invitations.accept lib.invitations token claims.userId
  | registerAndAccept token username password =>
      discard (Invitations.registerAndAccept lib.invitations token username password)

/-!
## Sequences of API requests

Requests are served one after another. The goroutine that an approval starts is an event of its
own, which comes at any later time or never; until then the approval is kept, together with the
database at the time it was given.

A transaction that a request leaves open is lost.
-/

/-- An approval whose goroutine has not run yet. -/
structure Approval where
  id : String
  /-- The request as it was handed to the goroutine. -/
  request : WorkflowRequest
  reviewerId : String
  /-- The database when the request was approved. -/
  db : Database

/-- What the server works on, and the goroutines to come. -/
structure House where
  db : Database := {}
  cluster : Cluster := {}
  approvals : List Approval := []

def House.office (h : House) : Office := { db := h.db, cluster := h.cluster }

inductive Happening
  | request (claims : Claims) (header : String) (req : ApiRequest)
  | unscoped (claims : Claims) (req : OpenRequest)
  /-- The goroutine of one of the approvals. -/
  | execute (n : ℕ)

/-- Something that happens, and how the calls it makes turn out. -/
abbrev ApiEvent := Happening × (ℕ → Turn)

/-- The handler of a request up to the goroutine that it starts, if any. -/
def ApiRequest.respond (ctx : RequestContext) :
    ApiRequest → OfficeProg (Except GoError (Option (String × WorkflowRequest)))
  | approveWorkflow _ reqId note =>
      (approve reqId ctx.claims.userId note).unwrap fun wr => succeed (some (reqId, wr))
  | req => (req.handle lib ctx).unwrap fun _ => succeed none

/-- A request behind the middleware. -/
def ApiRequest.serve (claims : Claims) (header : String) (req : ApiRequest) :
    OfficeProg (Except GoError (Option (String × WorkflowRequest))) :=
  (workspaceAuthMiddleware req.requiredRole claims header req.pathId).unwrap (req.respond lib)

namespace House

/-- The desk at which an event is dealt with. -/
def desk (h : House) (turns : ℕ → Turn) : Desk := { office := h.office, turns := turns }

/-- What is kept of an office. -/
def keep (h : House) (o : Office) : House := { h with db := o.db, cluster := o.cluster }

/-- The approval that a request has given. -/
def given (h : House) (reviewerId : String) :
    Except GoError (Option (String × WorkflowRequest)) → List Approval
  | .ok (some (id, wr)) => [{ id := id, request := wr, reviewerId := reviewerId, db := h.db }]
  | _ => []

def next (h : House) : ApiEvent → House
  | (.request claims header req, turns) =>
      let r := (req.serve lib claims header).run attend (h.desk turns)
      { h.keep r.2.office with approvals := h.approvals ++ h.given claims.userId r.1 }
  | (.unscoped claims req, turns) =>
      h.keep ((req.handle lib claims).run attend (h.desk turns)).2.office
  | (.execute n, turns) =>
      match h.approvals[n]? with
      | none => h
      | some a =>
          let r := (execute (serverExecutors lib.codec) a.id a.request).run attend (h.desk turns)
          { h.keep r.2.office with approvals := h.approvals.eraseIdx n }

/-- The approval that an event carries out. -/
def executes (h : House) : ApiEvent → Option Approval
  | (.execute n, _) => h.approvals[n]?
  | _ => none

end House

end Wireflow.Server
