/-
# Workspaces and their members

A workspace is a row of the database and a namespace of the cluster with a quota, role bindings, a
default network and a default policy. `addWorkspace` creates the objects of the cluster inside the
database transaction; when a later step fails the transaction is rolled back and the objects stay.
-/

import Wireflow.Server.Office

namespace Wireflow.Server

open Wireflow.Api

structure WorkspaceDto where
  slug : String := ""
  displayName : String := ""

/-! ## The namespace of a workspace -/

variable (wsId : String)

/-- The namespace of a workspace. -/
def namespaceOf : String := "wf-" ++ wsId

def quotaName : String := "workspace-quota"

/-- `createRoleBinding`. -/
def createRoleBinding (ns wsId roleName : String) : OfficeProg (Except GoError Unit) :=
  (KubeCall.createRoleBinding ⟨ns, "wf-rb-" ++ wsId ++ "-" ++ roleName⟩).issue

/-- The loop over the roles. -/
def createRoleBindings (ns wsId : String) : List String → OfficeProg (Except GoError Unit)
  | [] => succeed ()
  | role :: rest =>
      ((createRoleBinding ns wsId role).mapError
        fun err => newError ("failed to create role binding: " ++ err.text)).unwrap
          fun _ => createRoleBindings ns wsId rest

def roleNames : List String := ["admin", "editor", "member", "viewer"]

def defaultNetName : String := "lattice-default-net"

def denyAllName : String := "lattice-deny-all"

def managedLabels : Labels :=
  Go.GoMap.ofPairs [("app.kubernetes.io/managed-by", "lattice-controller")]

/-- Create an object that a read did not find. Any other error of the read is returned. -/
def createMissing {α : Type} (text : String) (found : Except GoError α)
    (create : OfficeProg (Except GoError Unit)) : OfficeProg (Except GoError Unit) :=
  match found with
  | .ok _ => succeed ()
  | .error err =>
      if err.kind = .notFound then create.mapError fun e => newError (text ++ e.text)
      else fail err

/-- `createDefaultNetwork`. -/
def createDefaultNetwork (ns : String) : OfficeProg (Except GoError Unit) :=
  (KubeCall.getNetwork ⟨ns, defaultNetName⟩).issue >>= fun found =>
    createMissing "failed to create default network: " found
      (KubeCall.createNetwork
        { metadata := { ns := ns, name := defaultNetName, labels := managedLabels }
          specName := defaultNetName }).issue

/-- The policy that a new workspace starts with. -/
def denyAllPolicy (ns : String) : LatticePolicy where
  metadata := { ns := ns, name := denyAllName, labels := managedLabels }
  network := ns ++ "-net"
  action := "DENY"

/-- `createDefaultPolicy`. -/
def createDefaultPolicy (ns : String) : OfficeProg (Except GoError Unit) :=
  (KubeCall.getPolicy ⟨ns, denyAllName⟩).issue >>= fun found =>
    createMissing "failed to create default policy: " found
      (KubeCall.createPolicy (denyAllPolicy ns)).issue

/-- `InitializeTenant` once the namespace is there. -/
def fillNamespace : OfficeProg (Except GoError Unit) :=
  let ns := namespaceOf wsId
  ((KubeCall.createQuota ⟨ns, quotaName⟩).issue.mapError
    fun err => newError ("failed to create quota: " ++ err.text)).unwrap fun _ =>
      (createRoleBindings ns wsId roleNames).unwrap fun _ =>
        ((createDefaultNetwork ns).mapError
          fun err => newError ("failed to create default network: " ++ err.text)).unwrap fun _ =>
            (createDefaultPolicy ns).mapError
              fun err => newError ("failed to create default policy: " ++ err.text)

/-- `InitializeTenant`. -/
def initializeTenant : OfficeProg (Except GoError Unit) :=
  (KubeCall.createNamespace (namespaceOf wsId)).issue.unwrap fun _ => fillNamespace wsId

/-! ## Workspaces -/

variable (userId : String)

/-- One user has no two workspaces of one slug. -/
def checkSlug (slug text : String) : OfficeProg (Except GoError Unit) :=
  if userId = "" then succeed ()
  else (DbCall.existsByUserAndSlug userId slug).issue.unwrap fun taken =>
    if taken then fail (newError ("workspace with name \"" ++ text ++ "\" already exists"))
    else succeed ()

/-- The creator becomes an admin. -/
def addCreator (wsId : String) : OfficeProg (Except GoError String) :=
  if userId = "" then succeed wsId
  else (DbCall.addMember { workspaceId := wsId, userId := userId, role := .admin }).issue.unwrap
    fun _ => succeed wsId

/-- What `AddWorkspace` does in its transaction. -/
def addWorkspaceTx (row : Workspace) : OfficeProg (Except GoError String) :=
  (DbCall.createWorkspace row).issue.unwrap fun wsId =>
    (DbCall.updateWorkspace wsId { row with ns := namespaceOf wsId }).issue.unwrap fun _ =>
      (initializeTenant wsId).unwrap fun _ => addCreator userId wsId

/-- The row of a new workspace. -/
def newWorkspace (username slug : String) (dto : WorkspaceDto) : Workspace :=
  { slug := slug, displayName := dto.displayName, createdBy := username }

/-- `AddWorkspace` for a caller; `slug` is what `GenerateSlug` makes of the slug in the request. -/
def addWorkspace (username slug : String) (dto : WorkspaceDto) :
    OfficeProg (Except GoError String) :=
  (checkSlug userId slug dto.slug).unwrap fun _ =>
    transaction (addWorkspaceTx userId (newWorkspace username slug dto))

/-- `UpdateWorkspace`. -/
def updateWorkspace (username id : String) (dto : WorkspaceDto) :
    OfficeProg (Except GoError Unit) :=
  (DbCall.getWorkspace id).issue.unwrap fun ws =>
    (DbCall.updateWorkspace id
      { ws with
        displayName := if dto.displayName = "" then ws.displayName else dto.displayName
        updatedBy := username }).issue

/-- Delete the namespace of a workspace that has one. -/
def deleteTenant (ns : String) : OfficeProg (Except GoError Unit) :=
  if ns = "" then succeed ()
  else (KubeCall.deleteNamespace ns).issue >>= fun
    | .ok _ => succeed ()
    | .error err =>
        if err.kind = .notFound then succeed ()
        else fail (err.wrap ("failed to delete namespace " ++ ns ++ ": "))

/-- `DeleteWorkspace`. -/
def deleteWorkspace (id : String) : OfficeProg (Except GoError Unit) :=
  (DbCall.getWorkspace id).issue.unwrap fun ws =>
    (deleteTenant ws.ns).unwrap fun _ =>
      transaction <|
        (DbCall.deleteByWorkspace id).issue.unwrap fun _ => (DbCall.deleteWorkspace id).issue

/-! ## Members -/

/-- `Add` of the member controller. -/
def addMember (role : WorkspaceRole) : OfficeProg (Except GoError Unit) :=
  (DbCall.addMember { workspaceId := wsId, userId := userId, role := role }).issue.unwrap
    fun _ => succeed ()

/-- `UpdateRole`. -/
def updateRole (role : WorkspaceRole) : OfficeProg (Except GoError Unit) :=
  (DbCall.updateRole wsId userId role).issue

/-- `Remove`. -/
def removeMember : OfficeProg (Except GoError Unit) :=
  (DbCall.softRemove wsId userId).issue

/-- `RequireWorkspaceRole`: the membership by which the user has the role, or none for a platform
admin. -/
def requireWorkspaceRole (role : WorkspaceRole) :
    OfficeProg (Except GoError (Option WorkspaceMember)) :=
  ((DbCall.getUser userId).issue.mapError fun _ => newError "user not found").unwrap fun user =>
    if user.systemRole = .platformAdmin then succeed none
    else ((DbCall.getMembership wsId userId).issue.mapError
        fun _ => newError "not a member of this workspace").unwrap fun (_, member) =>
      if member.status = .suspended ∨ member.status = .removed then
        fail (newError "your access to this workspace has been suspended or revoked")
      else if getRoleWeight member.role < getRoleWeight role then
        fail (newError "insufficient role in workspace")
      else succeed (some member)

end Wireflow.Server
