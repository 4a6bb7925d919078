/-
# Invitations

`internal/server/service/invitation.go`. An invitation is created pending and is answered by its
token. Accepting it, with or without a new account, is one transaction; creating and revoking are
single statements after their checks.

Signatures of tokens and the comparison of addresses without regard to case are parameters.
-/

import Wireflow.Server.Workspaces

namespace Wireflow.Server

open Wireflow.Api

/-- What the service takes from libraries. -/
structure InvitationLibrary where
  /-- `VerifyInviteToken` with the secret of the server. -/
  verifyInviteToken : String → Bool
  /-- `strings.EqualFold`. -/
  equalFold : String → String → Bool

namespace Invitations

/-! ## Create -/

/-- Invitations expire after seven days. -/
def validity : ℕ := 7 * 24 * 60 * 60

/-- The inviter is a platform admin, or an admin who does not give away more than they have. -/
def checkInviter (wsId inviterId : String) (role : WorkspaceRole) (inviter : User) :
    OfficeProg (Except GoError Unit) :=
  if inviter.systemRole = .platformAdmin then succeed ()
  else ((DbCall.getMembership wsId inviterId).issue.mapError
      fun _ => newError "inviter is not a member of this workspace").unwrap fun (_, member) =>
    if getRoleWeight member.role < getRoleWeight .admin then
      fail (newError "only admins can invite members")
    else if getRoleWeight member.role < getRoleWeight role then
      fail (newError "cannot invite with a role higher than your own")
    else succeed ()

/-- A query for a row that should not be there. -/
def checkAbsent {α : Type} (text : String) (found : Except GoError α) :
    OfficeProg (Except GoError Unit) :=
  match found with
  | .ok _ => fail (newError text)
  | .error err => if err.kind = .notFound then succeed () else fail err

/-- `Create`. -/
def create (wsId inviterId email : String) (role : WorkspaceRole) :
    OfficeProg (Except GoError String) :=
  ((DbCall.getUser inviterId).issue.mapError fun _ => newError "inviter not found").unwrap
    fun inviter => (checkInviter wsId inviterId role inviter).unwrap fun _ =>
      ((DbCall.getPendingByEmailAndWorkspace email wsId).issue >>=
        checkAbsent "a pending invitation already exists for this email").unwrap fun _ =>
          OfficeCall.generateToken.issue.unwrap fun token =>
            OfficeCall.now.issue >>= fun time =>
              (DbCall.createInvitation
                { workspaceId := wsId
                  inviterId := inviterId
                  email := email
                  role := role
                  token := token
                  expiresAt := time + validity }).issue

/-! ## Accept -/

variable (lib : InvitationLibrary)

/-- The invitation of a token, as long as it can be accepted. -/
def openInvitation (token : String) :
    OfficeProg (Except GoError (String × WorkspaceInvitation)) :=
  ((DbCall.getByToken token).issue.mapError fun _ => newError "invitation not found").unwrap
    fun (id, inv) =>
      if !lib.verifyInviteToken token then fail (newError "invalid invitation token")
      else if inv.status ≠ .pending then fail (newError "invitation is no longer pending")
      else OfficeCall.now.issue >>= fun time =>
        if inv.expiresAt < time then
          -- the write is undone with the transaction
          (DbCall.updateInvitation id .expired).issue >>= fun _ =>
            fail (newError "invitation has expired")
        else succeed (id, inv)

/-- The membership of somebody who accepts. -/
def membershipOf (inv : WorkspaceInvitation) (userId : String) : WorkspaceMember where
  workspaceId := inv.workspaceId
  userId := userId
  role := inv.role
  invitedBy := inv.inviterId

/-- Add the member and close the invitation. -/
def join (id : String) (inv : WorkspaceInvitation) (userId : String) :
    OfficeProg (Except GoError Unit) :=
  (DbCall.addMember (membershipOf inv userId)).issue.unwrap fun _ =>
    (DbCall.updateInvitation id .accepted).issue

/-- `Accept`, inside its transaction. -/
def acceptTx (token acceptorId : String) :
    OfficeProg (Except GoError Unit) :=
  (openInvitation lib token).unwrap fun (id, inv) =>
    ((DbCall.getUser acceptorId).issue.mapError fun _ => newError "user not found").unwrap
      fun acceptor =>
        if !lib.equalFold acceptor.email inv.email then
          fail (newError ("this invitation was sent to " ++ inv.email ++
            ", but you are logged in as " ++ acceptor.email))
        else join id inv acceptorId

/-- `Accept`. -/
def accept (token acceptorId : String) :
    OfficeProg (Except GoError Unit) :=
  transaction (acceptTx lib token acceptorId)

/-- `RegisterAndAccept`, inside its transaction. -/
def registerAndAcceptTx (token username password : String) :
    OfficeProg (Except GoError String) :=
  (openInvitation lib token).unwrap fun (id, inv) =>
    ((DbCall.getUserByEmail inv.email).issue >>=
      checkAbsent "an account with this email already exists, please log in instead").unwrap
        fun _ => (DbCall.getUserByUsername username).issue >>= fun
          | .ok _ => fail (newError "username already taken")
          | .error _ => (OfficeCall.encryptPassword password).issue.unwrap fun _ =>
              (DbCall.createUser { username := username, email := inv.email }).issue.unwrap
                fun userId => (join id inv userId).unwrap
                  fun _ => (OfficeCall.generateBusinessJWT userId).issue

/-- `RegisterAndAccept`. -/
def registerAndAccept (token username password : String) :
    OfficeProg (Except GoError String) :=
  transaction (registerAndAcceptTx lib token username password)

/-! ## Revoke -/

def revokeDenied : GoError :=
  newError ("permission denied: only the inviter or a workspace admin can revoke this " ++
    "invitation")

/-- A platform admin, the inviter or an admin may revoke. -/
def checkRevoker (callerId : String) (inv : WorkspaceInvitation) (caller : User) :
    OfficeProg (Except GoError Unit) :=
  if caller.systemRole = .platformAdmin ∨ inv.inviterId = callerId then succeed ()
  else ((DbCall.getMembership inv.workspaceId callerId).issue.mapError
      fun _ => revokeDenied).unwrap fun (_, member) =>
    if getRoleWeight member.role < getRoleWeight .admin then fail revokeDenied else succeed ()

/-- `Revoke`. -/
def revoke (callerId id : String) : OfficeProg (Except GoError Unit) :=
  ((DbCall.findInvitation id).issue.mapError fun _ => newError "invitation not found").unwrap
    fun inv => ((DbCall.getUser callerId).issue.mapError
      fun _ => newError "caller not found").unwrap fun caller =>
        (checkRevoker callerId inv caller).unwrap fun _ =>
          (DbCall.updateInvitation id .revoked).issue

/-! ## Sequences of operations -/

/-- What happens to the invitations and members. Nothing in the server suspends a member; somebody
with access to the database may. -/
inductive Operation
  | create (wsId inviterId email : String) (role : WorkspaceRole)
  | accept (token acceptorId : String)
  | registerAndAccept (token username password : String)
  | revoke (callerId id : String)
  | remove (wsId userId : String)
  | suspend (wsId userId : String)

/-- An operation, and how the calls it makes turn out. -/
abbrev Event := Operation × (ℕ → Turn)

/-- Run a program on a database alone. -/
def serve {α : Type} (p : OfficeProg (Except GoError α)) (turns : ℕ → Turn) (db : Database) :
    Except GoError Unit × Database :=
  let r := p.run attend { office := { db := db }, turns := turns }
  (r.1.map fun _ => (), r.2.office.db)

/-- The result of an operation and the database after it. -/
def outcome (db : Database) : Event → Except GoError Unit × Database
  | (.create wsId inviterId email role, turns) => serve (create wsId inviterId email role) turns db
  | (.accept token acceptorId, turns) => serve (accept lib token acceptorId) turns db
  | (.registerAndAccept token username password, turns) =>
      serve (registerAndAccept lib token username password) turns db
  | (.revoke callerId id, turns) => serve (revoke callerId id) turns db
  | (.remove wsId userId, turns) => serve (removeMember wsId userId) turns db
  | (.suspend wsId userId, _) =>
      (.ok (), { db with
        members := db.members.updateWhere (fun _ m => m.workspaceId = wsId && m.userId = userId)
          fun m => { m with status := .suspended } })

/-- The database after an operation. -/
def next (db : Database) (e : Event) : Database := (outcome lib db e).2

end Invitations

end Wireflow.Server
