/-
# Approval of requests

A request waits until somebody approves or rejects it. An approval starts a goroutine that runs
the executor registered for the kind of request and writes how that went.

The status is read in one store call and written in another, and the write is unconditional.
-/

import Wireflow.Semantics.RelyGuarantee
import Wireflow.Server.Policies

namespace Wireflow.Server

open Semantics
open Wireflow.Api

/-- The status as it is stored. -/
def WorkflowStatus.text : WorkflowStatus → String
  | .pending => "pending"
  | .approved => "approved"
  | .rejected => "rejected"
  | .executed => "executed"
  | .failed => "failed"

structure SubmitWorkflowReq where
  workspaceId : String
  requestedBy : String
  resourceType : String
  resourceName : String
  action : String
  payload : String

/-- `Submit`. -/
def submitWorkflow (req : SubmitWorkflowReq) : OfficeProg (Except GoError String) :=
  (DbCall.createRequest
    { workspaceId := req.workspaceId
      requestedBy := req.requestedBy
      resourceType := req.resourceType
      resourceName := req.resourceName
      action := req.action
      payload := req.payload }).issue.mapError (·.wrap "create workflow request: ")

/-- `executorKey`. -/
def executorKey (resourceType action : String) : String := resourceType ++ ":" ++ action

/-- What is registered under each key: a program that is given the payload. -/
abbrev Executors := String → Option (String → OfficeProg (Except GoError Unit))

/-- The request as it is found, while it is pending. -/
def pendingRequest (verb id : String) : OfficeProg (Except GoError WorkflowRequest) :=
  ((DbCall.getRequest id).issue.mapError fun _ => newError "workflow request not found").unwrap
    fun wr =>
      if wr.status = .pending then succeed wr
      else fail (newError ("cannot " ++ verb ++ " a request with status \"" ++
        wr.status.text ++ "\""))

/-- `Approve`, up to the goroutine that it starts: the request that is handed to `execute`. -/
def approve (id reviewerId note : String) : OfficeProg (Except GoError WorkflowRequest) :=
  (pendingRequest "approve" id).unwrap fun wr =>
    (DbCall.updateStatus id .approved
      { reviewedBy := some reviewerId, reviewNote := some note }).issue.unwrap fun _ =>
        succeed (withStatus .approved
          { reviewedBy := some reviewerId, reviewNote := some note } wr)

/-- `Reject`. -/
def reject (id reviewerId note : String) : OfficeProg (Except GoError Unit) :=
  (pendingRequest "reject" id).unwrap fun _ =>
    (DbCall.updateStatus id .rejected
      { reviewedBy := some reviewerId, reviewNote := some note }).issue

/-- Write the outcome of an execution; an error of this is ignored. -/
def recordOutcome (id : String) (outcome : Except GoError Unit) : OfficeProg Unit :=
  match outcome with
  | .error err =>
      (DbCall.updateStatus id .failed { errorMessage := some err.text }).issue >>= fun _ => .ret ()
  | .ok _ => (DbCall.updateStatus id .executed {}).issue >>= fun _ => .ret ()

/-- `execute`. -/
def execute (executors : Executors) (id : String) (wr : WorkflowRequest) : OfficeProg Unit :=
  let key := executorKey wr.resourceType wr.action
  match executors key with
  | none => recordOutcome id (.error (newError ("no executor registered for \"" ++ key ++ "\"")))
  | some fn =>
      (OfficeCall.logExecuting id key).issue >>= fun _ =>
        fn wr.payload >>= recordOutcome id

/-- `Approve` together with the goroutine. -/
def approveAndExecute (executors : Executors) (id reviewerId note : String) :
    OfficeProg (Except GoError Unit) :=
  (approve id reviewerId note).unwrap fun wr =>
    execute executors id wr >>= fun _ => succeed ()

/-- The executor for new policies. -/
def policyExecutor (codec : PolicyCodec) (payload : String) : OfficeProg (Except GoError Unit) :=
  match codec.unmarshalPayload payload with
  | .error err => fail err
  | .ok policyId => applyRecord codec policyId

/-- `registerPolicyExecutor`: nothing else is registered. -/
def serverExecutors (codec : PolicyCodec) : Executors := fun key =>
  if key = executorKey "policy" "create" then some (policyExecutor codec) else none

/-!
## Concurrent decisions

Any number of reviewers approve and reject requests, each as often as it likes, and the goroutines
that approvals start run along. A `Ledger` notes how often an executor was run for a request, whose
approval of a request was written, and for which requests a rejection has succeeded.
-/

variable {ι : Type}

/-- Calls that leave workflow requests and transactions alone and do not stand for the run of an
executor. -/
def Elsewhere : OfficeCall → Prop
  | .db (.createRequest _) => False
  | .db (.updateStatus _ _ _) => False
  | .db (.deleteRequest _) => False
  | .begin => False
  | .commit => False
  | .rollback => False
  | .logExecuting _ _ => False
  | _ => True

/-- An executor does its work elsewhere. -/
structure Executor where
  run : String → OfficeProg (Except GoError Unit)
  confined : ∀ payload, (run payload).Within Elsewhere fun _ => True

variable (registered : String → Option Executor)

/-- The executors by key. -/
def executorsOf : Executors := fun key =>
  (registered key).map Executor.run

inductive Verb
  | approve
  | reject
  deriving DecidableEq, Repr

/-- What a reviewer calls. -/
structure Decision where
  verb : Verb
  id : String
  reviewerId : String := ""
  note : String := ""

/-- The call, with the goroutine that an approval starts. -/
def Decision.program (d : Decision) :
    OfficeProg (Except GoError Unit) :=
  match d.verb with
  | .approve => approveAndExecute (executorsOf registered) d.id d.reviewerId d.note
  | .reject => reject d.id d.reviewerId d.note

structure Ledger (ι : Type) where
  office : Office
  /-- How often an executor was run for a request. -/
  executions : String → ℕ := fun _ => 0
  /-- Whose approval of a request was written and answered without an error. -/
  owner : String → Option ι := fun _ => none
  /-- The requests for which `Reject` returned nil. -/
  rejected : List String := []

/-- The run of an executor is announced by a log line. -/
def executionsAfter (l : Ledger ι) : OfficeCall → String → ℕ
  | .logExecuting id _ => Function.update l.executions id (l.executions id + 1)
  | _ => l.executions

def ownerAfter (l : Ledger ι) (i : ι) : (c : OfficeCall) → c.Res → String → Option ι
  | .db (.updateStatus id .approved _), .ok _ => Function.update l.owner id (some i)
  | _, _ => l.owner

variable (decisions : ι → Decision)

/-- Answer a call and keep the ledger. -/
def book :
    (c : Note ι OfficeCall (Except GoError Unit)) → Turn → Ledger ι →
      Note.Res OfficeCall.Res c × Ledger ι
  | .call i c, t, l =>
      ((execOffice c t l.office).1,
        { l with
          office := (execOffice c t l.office).2
          executions := executionsAfter l c
          owner := ownerAfter l i c (execOffice c t l.office).1 })
  | .done i (.ok _), _, l =>
      ((), if (decisions i).verb = .reject then
        { l with rejected := (decisions i).id :: l.rejected } else l)
  | .done _ (.error _), _, l => ((), l)

/-- Everybody at work. -/
def reviewers :
    Workers ι (Note ι OfficeCall (Except GoError Unit)) (Note.Res OfficeCall.Res) (Ledger ι)
      Turn Empty where
  program i := ((decisions i).program registered).journal i
  exec := book decisions
  disturb e := nomatch e

/-- The ledger after a schedule that starts with nobody at work. -/
def ledgerAfter [DecidableEq ι]
    (office : Office) (schedule : List (Action ι Turn Empty)) :
    Ledger ι :=
  ((reviewers registered decisions).run (Workers.idle { office := office }) schedule).shared

end Wireflow.Server
