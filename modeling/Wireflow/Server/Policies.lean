/-
# Policies of a workspace

A policy is a record in the database and, once it is in force, an object in the namespace of the
workspace. `submitPolicy` only makes the record, `applyRecord` puts a record in force, and
`applyDirect` does both at once. The two stores are written one after the other, and some errors
of the second are dropped.
-/

import Wireflow.Server.Office

namespace Wireflow.Server

open Wireflow.Api

/-- `LatticePolicySpec`. -/
structure PolicySpec where
  network : String := ""
  peerSelector : LabelSelector := {}
  ingress : List IngressRule := []
  egress : List EgressRule := []
  action : String := ""
  deriving DecidableEq

/-- The spec of a policy object. -/
def specOf (p : LatticePolicy) : PolicySpec where
  network := p.network
  peerSelector := p.peerSelector
  ingress := p.ingress
  egress := p.egress
  action := p.action

/-- The texts kept in records and payloads, as `encoding/json` writes and reads them. Marshalling
these types does not fail. -/
structure PolicyCodec where
  marshalSpec : PolicySpec → String
  unmarshalSpec : String → Except GoError PolicySpec
  marshalTypes : List String → String
  /-- Errors are ignored, and leave what has been read. -/
  unmarshalTypes : String → List String
  /-- The object with the one field `policyId`. -/
  marshalPayload : String → String
  unmarshalPayload : String → Except GoError String

structure PolicyDto where
  name : String
  action : String := ""
  description : String := ""
  policyTypes : List String := []
  spec : PolicySpec := {}

variable (codec : PolicyCodec)

/-- `Submit`: a pending record. -/
def submitPolicy (wsId createdBy createdByName : String) (dto : PolicyDto) :
    OfficeProg (Except GoError String) :=
  (DbCall.createPolicy
    { workspaceId := wsId
      name := dto.name
      description := dto.description
      action := dto.action
      policyTypes := codec.marshalTypes dto.policyTypes
      spec := codec.marshalSpec dto.spec
      status := .pending
      createdBy := createdBy
      createdByName := createdByName }).issue

/-- The object that is applied for a policy. The action overrides that of the spec. -/
def policyObject (ns name action description : String) (policyTypes : List String)
    (spec : PolicySpec) : LatticePolicy where
  metadata :=
    { ns := ns
      name := name
      labels := Go.GoMap.ofPairs [("action", action)]
      annotations := Go.GoMap.ofPairs
        [("description", description), ("policyTypes", ",".intercalate policyTypes)] }
  network := spec.network
  peerSelector := spec.peerSelector
  ingress := spec.ingress
  egress := spec.egress
  action := action

/-- The object for a record. -/
def recordObject (ns : String) (rec : PolicyRecord) (spec : PolicySpec) :
    LatticePolicy :=
  policyObject ns rec.name rec.action rec.description (codec.unmarshalTypes rec.policyTypes) spec

/-- The second half of `Apply`: put the record in force, and note in it how that went. -/
def enforceRecord (policyId : String) (rec : PolicyRecord) (obj : LatticePolicy) :
    OfficeProg (Except GoError Unit) :=
  (KubeCall.applyPolicy obj).issue >>= fun
    | .error err =>
        (DbCall.updatePolicy policyId
          { rec with status := .failed, errorMessage := err.text }).issue >>= fun _ => fail err
    | .ok _ =>
        (DbCall.updatePolicy policyId { rec with status := .active, errorMessage := "" }).issue

/-- `Apply`, which the workflow runs after approval. -/
def applyRecord (policyId : String) : OfficeProg (Except GoError Unit) :=
  ((DbCall.getPolicy policyId).issue.mapError (·.wrap "policy record not found: ")).unwrap
    fun rec =>
      ((DbCall.getWorkspace rec.workspaceId).issue.mapError (·.wrap "workspace not found: ")).unwrap
        fun workspace =>
          match codec.unmarshalSpec rec.spec with
          | .error err => fail (err.wrap "unmarshal spec: ")
          | .ok spec => enforceRecord policyId rec (recordObject codec workspace.ns rec spec)

/-- The object that `ApplyDirect` applies. -/
def directObject (ns : String) (dto : PolicyDto) : LatticePolicy :=
  policyObject ns dto.name dto.action dto.description dto.policyTypes dto.spec

/-- The record that `ApplyDirect` leaves, over an existing one or a new one. -/
def directRecord (operatorId operatorName : String) (dto : PolicyDto)
    (existing : PolicyRecord) : PolicyRecord :=
  { existing with
    description := dto.description
    action := dto.action
    policyTypes := codec.marshalTypes dto.policyTypes
    spec := codec.marshalSpec dto.spec
    status := .active
    errorMessage := ""
    updatedBy := operatorId
    updatedByName := operatorName }

/-- What `ApplyDirect` goes on with: the record found, or a new one when there is none or the
query fails. -/
def existingRecord (wsId operatorId operatorName name : String)
    (found : Except GoError (String × PolicyRecord)) : String × PolicyRecord :=
  match found with
  | .ok r => r
  | .error _ =>
      ("", { workspaceId := wsId, name := name, createdBy := operatorId,
             createdByName := operatorName })

/-- Write the record, and pay no attention to errors. -/
def saveRecord (id : String) (rec : PolicyRecord) : OfficeProg Unit :=
  if id = "" then (DbCall.createPolicy rec).issue >>= fun _ => .ret ()
  else (DbCall.updatePolicy id rec).issue >>= fun _ => .ret ()

/-- `ApplyDirect`. -/
def applyDirect (wsId operatorId operatorName : String) (dto : PolicyDto) :
    OfficeProg (Except GoError Unit) :=
  (DbCall.getWorkspace wsId).issue.unwrap fun workspace =>
    (KubeCall.applyPolicy (directObject workspace.ns dto)).issue.unwrap fun _ =>
      (DbCall.getPolicyByName wsId dto.name).issue >>= fun found =>
        let existing := existingRecord wsId operatorId operatorName dto.name found
        saveRecord existing.1 (directRecord codec operatorId operatorName dto existing.2) >>=
          fun _ => succeed ()

/-- Remove the workflow request of a deleted policy, if it has one. -/
def cleanUpRequest (found : Except GoError (String × PolicyRecord)) : OfficeProg Unit :=
  match found with
  | .error _ => .ret ()
  | .ok (_, rec) =>
      if rec.workflowRequestId = "" then .ret ()
      else (DbCall.deleteRequest rec.workflowRequestId).issue >>= fun _ => .ret ()

/-- `DeletePolicy`. The object is deleted as far as that is possible. -/
def deletePolicy (wsId name : String) : OfficeProg (Except GoError Unit) :=
  (DbCall.getWorkspace wsId).issue.unwrap fun workspace =>
    (DbCall.getPolicyByName wsId name).issue >>= fun found =>
      (KubeCall.deletePolicy ⟨workspace.ns, name⟩).issue >>= fun _ =>
        (DbCall.deletePolicy wsId name).issue.unwrap fun _ =>
          cleanUpRequest found >>= fun _ => succeed ()

end Wireflow.Server
