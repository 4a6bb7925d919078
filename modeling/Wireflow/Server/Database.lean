/-
# The database of the management server

The tables of `internal/server/models` that requests read and write, and the statements of the
repositories in `internal/db/gormstore` on them. Rows are kept under their primary key. Most
tables delete softly: a deleted row stays and queries pass over it, yet it still counts for a
unique index.

The unique index on the workspace and name of a policy record is carried by `PolicyTable`, so that
two records of one name cannot be built.
-/

import Wireflow.Api.Types
import Wireflow.Sql.Rows

namespace Wireflow.Server

open Sql (Rows)
open Wireflow.Api (GoError)

/-! ## Rows -/

/-- `SystemRole`; users that registered themselves have none. -/
inductive SystemRole
  | none
  | user
  | platformAdmin
  deriving DecidableEq, Repr

/-- `WorkspaceRole`, a string that requests may fill with anything. -/
inductive WorkspaceRole
  | admin
  | editor
  | member
  | viewer
  | other (text : String)
  deriving DecidableEq, Repr

/-- `GetRoleWeight`. -/
def getRoleWeight : WorkspaceRole → ℕ
  | .admin => 100
  | .editor => 80
  | .member => 40
  | .viewer => 10
  | .other _ => 0

inductive MemberStatus
  | active
  | pending
  | suspended
  | removed
  deriving DecidableEq, Repr

structure User where
  username : String := ""
  email : String := ""
  systemRole : SystemRole := .none
  deleted : Bool := false
  deriving DecidableEq, Repr

structure Workspace where
  slug : String := ""
  ns : String := ""
  displayName : String := ""
  createdBy : String := ""
  updatedBy : String := ""
  deleted : Bool := false
  deriving DecidableEq, Repr

structure WorkspaceMember where
  workspaceId : String
  userId : String
  role : WorkspaceRole
  status : MemberStatus := .active
  invitedBy : String := ""
  deleted : Bool := false
  deriving DecidableEq, Repr

inductive PolicyStatus
  | pending
  | active
  | failed
  deriving DecidableEq, Repr

/-- `models.Policy`: the record of a policy. -/
structure PolicyRecord where
  workspaceId : String
  name : String
  description : String := ""
  action : String := ""
  /-- The policy types as JSON. -/
  policyTypes : String := ""
  /-- The spec as JSON. -/
  spec : String := ""
  status : PolicyStatus := .pending
  workflowRequestId : String := ""
  errorMessage : String := ""
  createdBy : String := ""
  createdByName : String := ""
  updatedBy : String := ""
  updatedByName : String := ""
  deleted : Bool := false
  deriving DecidableEq, Repr

inductive WorkflowStatus
  | pending
  | approved
  | rejected
  | executed
  | failed
  deriving DecidableEq, Repr

structure WorkflowRequest where
  workspaceId : String := ""
  requestedBy : String := ""
  resourceType : String := ""
  resourceName : String := ""
  action : String := ""
  /-- What an executor is given, as JSON. -/
  payload : String := ""
  status : WorkflowStatus := .pending
  reviewedBy : String := ""
  reviewNote : String := ""
  errorMessage : String := ""
  deriving DecidableEq, Repr

inductive InvitationStatus
  | pending
  | accepted
  | revoked
  | expired
  deriving DecidableEq, Repr

structure WorkspaceInvitation where
  workspaceId : String
  inviterId : String := ""
  email : String := ""
  role : WorkspaceRole
  token : String := ""
  status : InvitationStatus := .pending
  expiresAt : ℕ := 0
  deleted : Bool := false
  deriving DecidableEq, Repr

/-! ## Tables -/

/-- The policy records, with the unique index on workspace and name. -/
structure PolicyTable where
  rows : Rows PolicyRecord
  unique : ∀ i j p q, rows.lookup i = some p → rows.lookup j = some q →
    p.workspaceId = q.workspaceId → p.name = q.name → i = j

namespace PolicyTable

def empty : PolicyTable := ⟨∅, by simp⟩

/-- Another row has the same workspace and name. -/
def Clashes (t : PolicyTable) (id : String) (row : PolicyRecord) : Prop :=
  ∃ r ∈ t.rows.pairs, r.1 ≠ id ∧ r.2.workspaceId = row.workspaceId ∧ r.2.name = row.name

instance (t : PolicyTable) (id : String) (row : PolicyRecord) : Decidable (t.Clashes id row) :=
  inferInstanceAs (Decidable (∃ r ∈ t.rows.pairs, _))

/-- Store a row under its key, if the index allows it. -/
def put (t : PolicyTable) (id : String) (row : PolicyRecord) (h : ¬t.Clashes id row) :
    PolicyTable where
  rows := t.rows.insert id row
  unique := by
    have hfree : ∀ i p, i ≠ id → t.rows.lookup i = some p → p.workspaceId = row.workspaceId →
        p.name = row.name → False := fun i p hi hp hws hname =>
      h ⟨(i, p), Go.GoMap.mem_pairs.mpr hp, hi, hws, hname⟩
    intro i j p q hp hq hws hname
    by_cases hi : i = id <;> by_cases hj : j = id
    · rw [hi, hj]
    · subst hi
      rw [AList.lookup_insert, Option.some_inj] at hp
      rw [AList.lookup_insert_ne hj] at hq
      exact (hfree j q hj hq (by rw [hp, hws]) (by rw [hp, hname])).elim
    · subst hj
      rw [AList.lookup_insert, Option.some_inj] at hq
      rw [AList.lookup_insert_ne hi] at hp
      exact (hfree i p hi hp (by rw [hq, hws]) (by rw [hq, hname])).elim
    · rw [AList.lookup_insert_ne hi] at hp
      rw [AList.lookup_insert_ne hj] at hq
      exact t.unique i j p q hp hq hws hname

/-- Mark the rows of a workspace and name as deleted. -/
def softDelete (t : PolicyTable) (workspaceId name : String) : PolicyTable where
  rows := t.rows.updateWhere
    (fun _ p => !p.deleted && p.workspaceId = workspaceId && p.name = name)
    fun p => { p with deleted := true }
  unique := by
    intro i j p q hp hq hws hname
    rw [Rows.lookup_updateWhere, Option.map_eq_some_iff] at hp hq
    obtain ⟨p', hp', rfl⟩ := hp
    obtain ⟨q', hq', rfl⟩ := hq
    refine t.unique i j p' q' hp' hq' ?_ ?_
    · split_ifs at hws <;> exact hws
    · split_ifs at hname <;> exact hname

end PolicyTable

structure Database where
  users : Rows User := ∅
  workspaces : Rows Workspace := ∅
  members : Rows WorkspaceMember := ∅
  policies : PolicyTable := .empty
  requests : Rows WorkflowRequest := ∅
  invitations : Rows WorkspaceInvitation := ∅

/-! ## Statements -/

/-- `gorm.ErrRecordNotFound`. -/
def recordNotFound : GoError := { kind := .notFound, text := "record not found" }

/-- A primary key or unique index is violated. -/
def duplicatedKey : GoError := { kind := .alreadyExists, text := "UNIQUE constraint failed" }

/-- `gorm.ErrMissingWhereClause`. -/
def missingWhereClause : GoError := { text := "WHERE conditions required" }

/-- A scope such as `WithUserID`: an empty value leaves the condition out. -/
def scope (value column : String) : Bool := value = "" || column = value

/-- What an update of a workflow request writes besides the status. -/
structure ReviewFields where
  reviewedBy : Option String := none
  reviewNote : Option String := none
  errorMessage : Option String := none

/-- The request with another status. -/
def withStatus (status : WorkflowStatus) (fields : ReviewFields) (r : WorkflowRequest) :
    WorkflowRequest :=
  { r with
    status := status
    reviewedBy := fields.reviewedBy.getD r.reviewedBy
    reviewNote := fields.reviewNote.getD r.reviewNote
    errorMessage := fields.errorMessage.getD r.errorMessage }

inductive DbCall
  | getUser (id : String)
  | getUserByEmail (email : String)
  | getUserByUsername (username : String)
  | createUser (row : User)
  | deleteUser (id : String)
  | getWorkspace (id : String)
  | getWorkspaceByNamespace (ns : String)
  | existsByUserAndSlug (userId slug : String)
  | createWorkspace (row : Workspace)
  | updateWorkspace (id : String) (row : Workspace)
  | deleteWorkspace (id : String)
  | getMembership (workspaceId userId : String)
  | addMember (row : WorkspaceMember)
  | updateRole (workspaceId userId : String) (role : WorkspaceRole)
  | softRemove (workspaceId userId : String)
  | deleteByWorkspace (workspaceId : String)
  | getPolicy (id : String)
  | getPolicyByName (workspaceId name : String)
  | createPolicy (row : PolicyRecord)
  | updatePolicy (id : String) (row : PolicyRecord)
  | deletePolicy (workspaceId name : String)
  | getRequest (id : String)
  | createRequest (row : WorkflowRequest)
  | updateStatus (id : String) (status : WorkflowStatus) (fields : ReviewFields)
  | deleteRequest (id : String)
  | findInvitation (id : String)
  | getByToken (token : String)
  | getPendingByEmailAndWorkspace (email workspaceId : String)
  | createInvitation (row : WorkspaceInvitation)
  | updateInvitation (id : String) (status : InvitationStatus)

/-- What a statement returns when it succeeds. A row found by a condition comes with its key, and
a created one is reported by its key. -/
@[reducible] def DbCall.Res : DbCall → Type
  | .getUser _ => User
  | .getUserByEmail _ => String × User
  | .getUserByUsername _ => String × User
  | .createUser _ => String
  | .getWorkspace _ => Workspace
  | .getWorkspaceByNamespace _ => String × Workspace
  | .existsByUserAndSlug _ _ => Bool
  | .createWorkspace _ => String
  | .getMembership _ _ => String × WorkspaceMember
  | .addMember _ => String
  | .getPolicy _ => PolicyRecord
  | .getPolicyByName _ _ => String × PolicyRecord
  | .createPolicy _ => String
  | .getRequest _ => WorkflowRequest
  | .createRequest _ => String
  | .findInvitation _ => WorkspaceInvitation
  | .getByToken _ => String × WorkspaceInvitation
  | .getPendingByEmailAndWorkspace _ _ => String × WorkspaceInvitation
  | .createInvitation _ => String
  | _ => Unit

/-- The row that a query has found. -/
def foundRow {α : Type} (row : Option α) : Except GoError α :=
  match row with
  | some a => .ok a
  | none => .error recordNotFound

/-- The row under a key, unless it is deleted. -/
def live {α : Type} (deleted : α → Bool) (t : Rows α) (id : String) : Option α :=
  (t.lookup id).filter fun a => !deleted a

/-- Insert a row, or report that its key is taken. -/
def created {α : Type} (t : Rows α) (id : String) (row : α) (store : Rows α → Database) :
    Except GoError (String × Database) :=
  match t.create id row with
  | some t' => .ok (id, store t')
  | none => .error duplicatedKey

namespace Database

/-- `ExistsByUserAndSlug`: a live workspace with the slug that a live membership row of the user
belongs to. -/
def existsByUserAndSlug (db : Database) (userId slug : String) : Bool :=
  db.members.pairs.any fun m => !m.2.deleted && m.2.userId = userId &&
    match live Workspace.deleted db.workspaces m.2.workspaceId with
    | some ws => ws.slug = slug
    | none => false

/-- `GetMembership`: the first membership row by primary key, whatever its status. -/
def membership (db : Database) (workspaceId userId : String) : Option (String × WorkspaceMember) :=
  db.members.first fun m =>
    !m.deleted && scope workspaceId m.workspaceId && scope userId m.userId

/-- Write a policy record. -/
def putPolicy (db : Database) (id : String) (row : PolicyRecord) : Option Database :=
  if h : db.policies.Clashes id row then none
  else some { db with policies := db.policies.put id row h }

/-- An update by a struct writes the columns that are not empty. -/
def updatedWorkspace (new old : Workspace) : Workspace :=
  let column (a b : String) := if a = "" then b else a
  { old with
    slug := column new.slug old.slug
    ns := column new.ns old.ns
    displayName := column new.displayName old.displayName
    createdBy := column new.createdBy old.createdBy
    updatedBy := column new.updatedBy old.updatedBy }

end Database

/-- Carry out a statement; `uuid` is the key that an insertion uses. -/
def DbCall.apply : (c : DbCall) → (uuid : String) → Database → Except GoError (c.Res × Database)
  | .getUser id, _, db => (foundRow (live User.deleted db.users id)).map (·, db)
  | .getUserByEmail email, _, db =>
      (foundRow (db.users.first fun u => !u.deleted && u.email = email)).map (·, db)
  | .getUserByUsername username, _, db =>
      (foundRow (db.users.first fun u => !u.deleted && scope username u.username)).map (·, db)
  | .createUser row, uuid, db =>
      created db.users uuid row fun t => { db with users := t }
  | .deleteUser id, _, db =>
      if id = "" then .error missingWhereClause
      else .ok ((), { db with
        users := db.users.updateWhere (fun key u => !u.deleted && key = id)
          fun u => { u with deleted := true } })
  | .getWorkspace id, _, db => (foundRow (live Workspace.deleted db.workspaces id)).map (·, db)
  | .getWorkspaceByNamespace ns, _, db =>
      (foundRow (db.workspaces.first fun w => !w.deleted && scope ns w.ns)).map (·, db)
  | .existsByUserAndSlug userId slug, _, db => .ok (db.existsByUserAndSlug userId slug, db)
  | .createWorkspace row, uuid, db =>
      -- `BeforeCreate` fills an empty namespace
      created db.workspaces uuid
        { row with ns := if row.ns = "" then "wf-" ++ uuid else row.ns }
        fun t => { db with workspaces := t }
  | .updateWorkspace id row, _, db =>
      .ok ((), { db with
        workspaces := db.workspaces.updateWhere (fun key w => !w.deleted && key = id)
          (Database.updatedWorkspace row) })
  | .deleteWorkspace id, _, db =>
      if id = "" then .error missingWhereClause
      else .ok ((), { db with
        workspaces := db.workspaces.updateWhere (fun key w => !w.deleted && key = id)
          fun w => { w with deleted := true } })
  | .getMembership workspaceId userId, _, db =>
      (foundRow (db.membership workspaceId userId)).map (·, db)
  | .addMember row, uuid, db => created db.members uuid row fun t => { db with members := t }
  | .updateRole workspaceId userId role, _, db =>
      .ok ((), { db with
        members := db.members.updateWhere
          (fun _ m => !m.deleted && m.workspaceId = workspaceId && m.userId = userId)
          fun m => { m with role := role } })
  | .softRemove workspaceId userId, _, db =>
      .ok ((), { db with
        members := db.members.updateWhere
          (fun _ m => !m.deleted && m.workspaceId = workspaceId && m.userId = userId)
          fun m => { m with status := .removed } })
  | .deleteByWorkspace workspaceId, _, db =>
      if workspaceId = "" then .error missingWhereClause
      else .ok ((), { db with
        members := db.members.updateWhere (fun _ m => !m.deleted && m.workspaceId = workspaceId)
          fun m => { m with deleted := true } })
  | .getPolicy id, _, db => (foundRow (live PolicyRecord.deleted db.policies.rows id)).map (·, db)
  | .getPolicyByName workspaceId name, _, db =>
      (foundRow (db.policies.rows.first fun p =>
        !p.deleted && p.workspaceId = workspaceId && p.name = name)).map (·, db)
  | .createPolicy row, uuid, db =>
      if (db.policies.rows.lookup uuid).isSome then .error duplicatedKey
      else match db.putPolicy uuid row with
        | some db' => .ok (uuid, db')
        | none => .error duplicatedKey
  | .updatePolicy id row, _, db =>
      match db.putPolicy id row with
      | some db' => .ok ((), db')
      | none => .error duplicatedKey
  | .deletePolicy workspaceId name, _, db =>
      .ok ((), { db with policies := db.policies.softDelete workspaceId name })
  | .getRequest id, _, db => (foundRow (db.requests.lookup id)).map (·, db)
  | .createRequest row, uuid, db =>
      created db.requests uuid row fun t => { db with requests := t }
  | .updateStatus id status fields, _, db =>
      .ok ((), { db with
        requests := db.requests.updateWhere (fun key _ => key = id) (withStatus status fields) })
  | .deleteRequest id, _, db => .ok ((), { db with requests := db.requests.erase id })
  | .findInvitation id, _, db =>
      (foundRow (live WorkspaceInvitation.deleted db.invitations id)).map (·, db)
  | .getByToken token, _, db =>
      (foundRow (db.invitations.first fun i => !i.deleted && i.token = token)).map (·, db)
  | .getPendingByEmailAndWorkspace email workspaceId, _, db =>
      (foundRow (db.invitations.first fun i =>
        !i.deleted && i.email = email && i.workspaceId = workspaceId && i.status = .pending)).map
          (·, db)
  | .createInvitation row, uuid, db =>
      -- the token has a unique index
      if db.invitations.pairs.any fun i => i.2.token = row.token then .error duplicatedKey
      else created db.invitations uuid row fun t => { db with invitations := t }
  | .updateInvitation id status, _, db =>
      .ok ((), { db with
        invitations := db.invitations.updateWhere (fun key i => !i.deleted && key = id)
          fun i => { i with status := status } })

end Wireflow.Server
