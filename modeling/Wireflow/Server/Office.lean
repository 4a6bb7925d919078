/-
# What the management server works on

The database, and the part of the cluster that the services write: workspaces are namespaces with
a quota and role bindings, and policies, peers and peerings are custom resources. `OfficeCall`
is what a service asks of the two and of its own process, and `execOffice` answers.

Each call comes with a `Turn` that says whether it fails, whether a failing write took effect
nevertheless, and what a fresh identifier or the clock is. A failing read covers a cache that does
not have the object yet.

Between `begin` and `commit` the statements work on a copy of the database. Writes to the cluster
are not part of a transaction.
-/

import Wireflow.Api.Store
import Wireflow.Semantics.Program
import Wireflow.Server.Database

namespace Wireflow.Server

open Go (GoMap Order)
open Semantics
open Wireflow.Api

/-! ## Server-side apply of policies

The fields of a policy spec are owned one by one; a selector and a list of rules are atomic. -/

/-- Who has written a field. -/
structure FieldOwner where
  /-- The manager `lattice-controller-manager`, by its last apply. -/
  applied : Bool := false
  /-- Somebody else. -/
  foreign : Bool := false
  deriving DecidableEq, Repr

structure PolicyOwners where
  network : FieldOwner := {}
  peerSelector : FieldOwner := {}
  ingress : FieldOwner := {}
  egress : FieldOwner := {}
  action : FieldOwner := {}

/-- One field of an apply, or none if it conflicts. A field that is no longer applied goes away
unless somebody else has it too. -/
def applySpecField {β : Type} [DecidableEq β] (owner : FieldOwner) (present : Bool)
    (want current absent : β) : Option β :=
  if present then if owner.foreign && want ≠ current then none else some want
  else some (if owner.applied && !owner.foreign then absent else current)

/-- The spec of `obj` applied over `current`. Network and selector are always part of the request,
the others only when they are not empty. -/
def applyPolicySpec (owners : PolicyOwners) (obj current : LatticePolicy) :
    Option LatticePolicy := do
  let network ← applySpecField owners.network true obj.network current.network ""
  let peerSelector ←
    applySpecField owners.peerSelector true obj.peerSelector current.peerSelector {}
  let ingress ← applySpecField owners.ingress (!obj.ingress.isEmpty) obj.ingress current.ingress []
  let egress ← applySpecField owners.egress (!obj.egress.isEmpty) obj.egress current.egress []
  let action ← applySpecField owners.action (obj.action ≠ "") obj.action current.action ""
  pure { current with network, peerSelector, ingress, egress, action }

/-- The owners once `obj` has been applied. -/
def ownersAfterApply (owners : PolicyOwners) (obj : LatticePolicy) : PolicyOwners where
  network := { owners.network with applied := true }
  peerSelector := { owners.peerSelector with applied := true }
  ingress := { owners.ingress with applied := !obj.ingress.isEmpty }
  egress := { owners.egress with applied := !obj.egress.isEmpty }
  action := { owners.action with applied := obj.action ≠ "" }

/-! ## The cluster -/

/-- The spec of a `LatticeNetworkPeering`, which belongs to no namespace. -/
structure Peering where
  namespaceA : String
  networkA : String
  namespaceB : String
  networkB : String
  mode : String
  deriving DecidableEq, Repr

structure Cluster where
  store : Store := {}
  namespaces : List String := []
  quotas : List NamespacedName := []
  roleBindings : List NamespacedName := []
  policyOwners : NamespacedName → PolicyOwners := fun _ => {}
  peerings : GoMap String Peering := ∅

namespace Cluster

variable (cl : Cluster)

/-- Objects are created in a namespace that exists. -/
def inNamespace {β : Type} (ns : String) (r : Except GoError β) :
    Except GoError β :=
  if ns ∈ cl.namespaces then r else .error (notFoundError "namespaces" ns)

def createNamespace (name : String) : Except GoError (Unit × Cluster) :=
  if name ∈ cl.namespaces then .error (alreadyExistsError "namespaces" name)
  else .ok ((), { cl with namespaces := name :: cl.namespaces })

/-- Deletion of a namespace, once everything in it is gone. -/
def deleteNamespace (name : String) : Except GoError (Unit × Cluster) :=
  if name ∈ cl.namespaces then
    let s := cl.store
    .ok ((), { cl with
      namespaces := cl.namespaces.filter (· ≠ name)
      quotas := cl.quotas.filter (·.ns ≠ name)
      roleBindings := cl.roleBindings.filter (·.ns ≠ name)
      store := { s with
        peers := s.peers.dropNamespace name
        networks := s.networks.dropNamespace name
        policies := s.policies.dropNamespace name
        endpoints := s.endpoints.dropNamespace name
        configMaps := s.configMaps.dropNamespace name
        tokens := s.tokens.dropNamespace name } })
  else .error (notFoundError "namespaces" name)

variable (key : NamespacedName)

def createQuota : Except GoError (Unit × Cluster) :=
  cl.inNamespace key.ns <|
    if key ∈ cl.quotas then .error (alreadyExistsError "resourcequotas" key.name)
    else .ok ((), { cl with quotas := key :: cl.quotas })

def createRoleBinding : Except GoError (Unit × Cluster) :=
  cl.inNamespace key.ns <|
    if key ∈ cl.roleBindings then
      .error (alreadyExistsError "rolebindings.rbac.authorization.k8s.io" key.name)
    else .ok ((), { cl with roleBindings := key :: cl.roleBindings })

def createNetwork (obj : LatticeNetwork) : Except GoError (Unit × Cluster) :=
  cl.inNamespace obj.metadata.ns <|
    match cl.store.networks.get obj.metadata.key with
    | some _ => .error (alreadyExistsError networkResource obj.metadata.name)
    | none => .ok ((), { cl with
        store := { cl.store with networks := cl.store.networks.put obj } })

def putPolicy (obj : LatticePolicy) : Cluster :=
  { cl with store := { cl.store with policies := cl.store.policies.put obj } }

/-- What somebody creates is not applied by the manager. -/
def createPolicy (obj : LatticePolicy) : Except GoError (Unit × Cluster) :=
  cl.inNamespace obj.metadata.ns <|
    match cl.store.policies.get obj.metadata.key with
    | some _ => .error (alreadyExistsError policyResource obj.metadata.name)
    | none => .ok ((), { cl.putPolicy obj with
        policyOwners := Function.update cl.policyOwners obj.metadata.key
          { network := { foreign := true }
            peerSelector := { foreign := true }
            ingress := { foreign := !obj.ingress.isEmpty }
            egress := { foreign := !obj.egress.isEmpty }
            action := { foreign := obj.action ≠ "" } } })

def policyConflict : GoError := { kind := .conflict, text := "Apply failed with conflicts" }

/-- The stored policy once `obj` has been applied with the spec `spec`. -/
def appliedPolicy (obj current spec : LatticePolicy) : LatticePolicy :=
  { spec with
    metadata := { current.metadata with
      labels := Store.applyLabels current.metadata.labels obj.metadata.labels
      annotations := Store.applyLabels current.metadata.annotations obj.metadata.annotations } }

/-- Server-side apply of a policy as `lattice-controller-manager`, without force. -/
def applyPolicy (obj : LatticePolicy) : Except GoError (Unit × Cluster) :=
  cl.inNamespace obj.metadata.ns <|
    match cl.store.policies.get obj.metadata.key with
    | none => .ok ((), { cl.putPolicy obj with
        policyOwners := Function.update cl.policyOwners obj.metadata.key
          (ownersAfterApply {} obj) })
    | some current =>
        match applyPolicySpec (cl.policyOwners obj.metadata.key) obj current with
        | none => .error policyConflict
        | some spec => .ok ((), { cl.putPolicy (appliedPolicy obj current spec) with
            policyOwners := Function.update cl.policyOwners obj.metadata.key
              (ownersAfterApply (cl.policyOwners obj.metadata.key) obj) })

def deletePolicy : Except GoError (Unit × Cluster) :=
  match cl.store.policies.get key with
  | none => .error (notFoundError policyResource key.name)
  | some _ => .ok ((), { cl with
      store := { cl.store with policies := cl.store.policies.erase key } })

def updatePeer (obj : LatticePeer) : Except GoError (Unit × Cluster) :=
  (cl.store.updatePeer obj).map fun r => ((), { cl with store := r.2 })

/-- A peer with finalizers is only marked. -/
def deletePeer (time : ℕ) :
    Except GoError (Unit × Cluster) :=
  match cl.store.peers.get key with
  | none => .error (notFoundError peerResource key.name)
  | some p =>
      let peers :=
        if p.metadata.finalizers.isEmpty then cl.store.peers.erase key
        else cl.store.peers.put { p with
          metadata := { p.metadata with
            deletionTimestamp := some (p.metadata.deletionTimestamp.getD time)
            resourceVersion := p.metadata.resourceVersion + 1 } }
      .ok ((), { cl with store := { cl.store with peers := peers } })

def deleteConfigMap : Except GoError (Unit × Cluster) :=
  match cl.store.configMaps.get key with
  | none => .error (notFoundError "configmaps" key.name)
  | some _ => .ok ((), { cl with
      store := { cl.store with configMaps := cl.store.configMaps.erase key } })

def createToken (obj : LatticeEnrollmentToken) : Except GoError (Unit × Cluster) :=
  cl.inNamespace obj.metadata.ns <|
    match cl.store.tokens.get obj.metadata.key with
    | some _ => .error (alreadyExistsError tokenResource obj.metadata.name)
    | none => .ok ((), { cl with store := { cl.store with tokens := cl.store.tokens.put obj } })

def deleteToken : Except GoError (Unit × Cluster) :=
  match cl.store.tokens.get key with
  | none => .error (notFoundError tokenResource key.name)
  | some _ => .ok ((), { cl with store := { cl.store with tokens := cl.store.tokens.erase key } })

def createPeering (name : String) (p : Peering) : Except GoError (Unit × Cluster) :=
  match cl.peerings.lookup name with
  | some _ => .error (alreadyExistsError peeringResource name)
  | none => .ok ((), { cl with peerings := cl.peerings.insert name p })

def deletePeering (name : String) : Except GoError (Unit × Cluster) :=
  match cl.peerings.lookup name with
  | none => .error (notFoundError peeringResource name)
  | some _ => .ok ((), { cl with peerings := cl.peerings.erase name })

end Cluster

/-! ## Calls -/

inductive KubeCall
  | createNamespace (name : String)
  | deleteNamespace (name : String)
  | createQuota (key : NamespacedName)
  | createRoleBinding (key : NamespacedName)
  | getNetwork (key : NamespacedName)
  | listNetworks (ns : String)
  | createNetwork (obj : LatticeNetwork)
  | getPolicy (key : NamespacedName)
  | createPolicy (obj : LatticePolicy)
  | applyPolicy (obj : LatticePolicy)
  | deletePolicy (key : NamespacedName)
  | getPeer (key : NamespacedName)
  | updatePeer (obj : LatticePeer)
  | deletePeer (key : NamespacedName)
  | getConfigMap (key : NamespacedName)
  | deleteConfigMap (key : NamespacedName)
  | getToken (key : NamespacedName)
  | createToken (obj : LatticeEnrollmentToken)
  | deleteToken (key : NamespacedName)
  | getPeering (name : String)
  | createPeering (name : String) (p : Peering)
  | deletePeering (name : String)

@[reducible] def KubeCall.Res : KubeCall → Type
  | .getNetwork _ => LatticeNetwork
  | .listNetworks _ => List LatticeNetwork
  | .getPolicy _ => LatticePolicy
  | .getPeer _ => LatticePeer
  | .getConfigMap _ => ConfigMap
  | .getToken _ => LatticeEnrollmentToken
  | .getPeering _ => Peering
  | _ => Unit

/-- How the environment resolves one call. -/
structure Turn where
  fault : Option GoError := none
  /-- A failing write was carried out before its answer got lost. -/
  lost : Bool := false
  /-- The identifier or token that is generated next. -/
  fresh : String := ""
  time : ℕ := 0
  listOrder : Order := Order.inPlace

/-- The object that a read has found. -/
def foundObject {α : Type} (resource name : String) (obj : Option α) : Except GoError α :=
  match obj with
  | some a => .ok a
  | none => .error (notFoundError resource name)

/-- Carry out a request to the API server. -/
def KubeCall.apply : (c : KubeCall) → Turn → Cluster → Except GoError (c.Res × Cluster)
  | .createNamespace name, _, cl => cl.createNamespace name
  | .deleteNamespace name, _, cl => cl.deleteNamespace name
  | .createQuota key, _, cl => cl.createQuota key
  | .createRoleBinding key, _, cl => cl.createRoleBinding key
  | .getNetwork key, _, cl =>
      (foundObject networkResource key.name (cl.store.networks.get key)).map (·, cl)
  | .listNetworks ns, t, cl => .ok (cl.store.networks.list ns t.listOrder, cl)
  | .createNetwork obj, _, cl => cl.createNetwork obj
  | .getPolicy key, _, cl =>
      (foundObject policyResource key.name (cl.store.policies.get key)).map (·, cl)
  | .createPolicy obj, _, cl => cl.createPolicy obj
  | .applyPolicy obj, _, cl => cl.applyPolicy obj
  | .deletePolicy key, _, cl => cl.deletePolicy key
  | .getPeer key, _, cl =>
      (foundObject peerResource key.name (cl.store.peers.get key)).map (·, cl)
  | .updatePeer obj, _, cl => cl.updatePeer obj
  | .deletePeer key, t, cl => cl.deletePeer key t.time
  | .getConfigMap key, _, cl =>
      (foundObject "configmaps" key.name (cl.store.configMaps.get key)).map (·, cl)
  | .deleteConfigMap key, _, cl => cl.deleteConfigMap key
  | .getToken key, _, cl =>
      (foundObject tokenResource key.name (cl.store.tokens.get key)).map (·, cl)
  | .createToken obj, _, cl => cl.createToken obj
  | .deleteToken key, _, cl => cl.deleteToken key
  | .getPeering name, _, cl =>
      (foundObject peeringResource name (cl.peerings.lookup name)).map (·, cl)
  | .createPeering name p, _, cl => cl.createPeering name p
  | .deletePeering name, _, cl => cl.deletePeering name

inductive OfficeCall
  | db (c : DbCall)
  | kube (c : KubeCall)
  | begin
  | commit
  | rollback
  | now
  /-- A random token, signed or not. -/
  | generateToken
  | encryptPassword (password : String)
  | generateBusinessJWT (userId : String)
  /-- The log line that precedes a run of an executor. -/
  | logExecuting (id key : String)

@[reducible] def OfficeCall.Res : OfficeCall → Type
  | .db c => Except GoError c.Res
  | .kube c => Except GoError c.Res
  | .begin => Except GoError Unit
  | .commit => Except GoError Unit
  | .rollback => Unit
  | .now => ℕ
  | .generateToken => Except GoError String
  | .encryptPassword _ => Except GoError Unit
  | .generateBusinessJWT _ => Except GoError String
  | .logExecuting _ _ => Unit

/-- A program of a service. -/
abbrev OfficeProg (α : Type) := Program OfficeCall OfficeCall.Res α

def DbCall.issue (c : DbCall) : OfficeProg (Except GoError c.Res) :=
  Program.perform (C := OfficeCall) (.db c)

def KubeCall.issue (c : KubeCall) : OfficeProg (Except GoError c.Res) :=
  Program.perform (C := OfficeCall) (.kube c)

def OfficeCall.issue (c : OfficeCall) : OfficeProg c.Res := Program.perform c

/-- Return an error. -/
def fail {α : Type} (err : GoError) : OfficeProg (Except GoError α) := .ret (.error err)

/-- Return a value. -/
def succeed {α : Type} (a : α) : OfficeProg (Except GoError α) := .ret (.ok a)

/-- `errors.New`. -/
def newError (text : String) : GoError := { text := text }

/-- `Tx`: the body works on a copy that is kept only if it succeeds. -/
def transaction {α : Type} (body : OfficeProg (Except GoError α)) : OfficeProg (Except GoError α) :=
  OfficeCall.begin.issue.unwrap fun _ =>
    body >>= fun
      | .error err => OfficeCall.rollback.issue >>= fun _ => fail err
      | .ok a => OfficeCall.commit.issue.unwrap fun _ => succeed a

/-! ## Answers -/

structure Office where
  db : Database := {}
  /-- The copy that an open transaction works on. -/
  tx : Option Database := none
  cluster : Cluster := {}

namespace Office

/-- What statements see. -/
def view (o : Office) : Database := o.tx.getD o.db

/-- Keep what a statement has changed. -/
def setView (o : Office) (db : Database) : Office :=
  match o.tx with
  | some _ => { o with tx := some db }
  | none => { o with db := db }

/-- Close a transaction and keep its changes. -/
def committed (o : Office) : Office := { o with db := o.view, tx := none }

@[simp] theorem view_setView (o : Office) (db : Database) : (o.setView db).view = db := by
  unfold setView view
  cases o.tx <;> rfl

@[simp] theorem cluster_setView (o : Office) (db : Database) :
    (o.setView db).cluster = o.cluster := by
  unfold setView
  cases o.tx <;> rfl

end Office

/-- The answer to a request that could be served, and what it leaves. -/
def Turn.answer {α σ : Type} (t : Turn) (s : σ) (r : Except GoError (α × σ)) :
    Except GoError α × σ :=
  match r, t.fault with
  | .error err, fault => (.error (fault.getD err), s)
  | .ok (a, s'), none => (.ok a, s')
  | .ok (_, s'), some err => (.error err, if t.lost then s' else s)

/-- An answer of the process itself. -/
def Turn.local {α : Type} (t : Turn) (a : α) : Except GoError α :=
  match t.fault with
  | none => .ok a
  | some err => .error err

/-- Answer a call. -/
def execOffice : (c : OfficeCall) → Turn → Office → c.Res × Office
  | .db c, t, o =>
      let r := t.answer o.view (c.apply t.fresh o.view)
      (r.1, o.setView r.2)
  | .kube c, t, o =>
      let r := t.answer o.cluster (c.apply t o.cluster)
      (r.1, { o with cluster := r.2 })
  | .begin, t, o =>
      (t.local (), if t.fault.isNone then { o with tx := some o.db } else o)
  | .commit, t, o => t.answer { o with tx := none } (.ok ((), o.committed))
  | .rollback, _, o => ((), { o with tx := none })
  | .now, t, o => (t.time, o)
  | .generateToken, t, o => (t.local t.fresh, o)
  | .encryptPassword _, t, o => (t.local (), o)
  | .generateBusinessJWT _, t, o => (t.local t.fresh, o)
  | .logExecuting _ _, _, o => ((), o)

/-- An office together with the turns still to come. -/
structure Desk where
  office : Office := {}
  turns : ℕ → Turn := fun _ => {}

/-- Take the next turn. -/
def attend (c : OfficeCall) (d : Desk) : c.Res × Desk :=
  ((execOffice c (d.turns 0) d.office).1,
    { office := (execOffice c (d.turns 0) d.office).2, turns := fun n => d.turns (n + 1) })

end Wireflow.Server
