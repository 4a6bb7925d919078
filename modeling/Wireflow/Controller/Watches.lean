/-
# What wakes a reconciler

`SetupWithManager` installs five watches, each with a predicate on events and a map
from objects to reconcile requests. Predicates and handlers of controller-runtime are
written out where their meaning matters: a predicate function that is left out passes,
and a map function is applied to both objects of an update.
-/

import Wireflow.Controller.Generator

namespace Wireflow.Controller

open Go.Strings
open Wireflow.Api

/-! ## Events and predicates -/

inductive Event (α : Type)
  | create (obj : α)
  | update (old new : α)
  | delete (obj : α)
  | generic (obj : α)

/-- `predicate.Funcs`. -/
structure Funcs (α : Type) where
  createFunc : α → Bool := fun _ => true
  updateFunc : α → α → Bool := fun _ _ => true
  deleteFunc : α → Bool := fun _ => true
  genericFunc : α → Bool := fun _ => true

namespace Funcs

variable {α : Type}

def passes (f : Funcs α) : Event α → Bool
  | .create obj => f.createFunc obj
  | .update old new => f.updateFunc old new
  | .delete obj => f.deleteFunc obj
  | .generic obj => f.genericFunc obj

/-- `predicate.And` of two predicates. -/
def and (f g : Funcs α) : Funcs α where
  createFunc obj := f.createFunc obj && g.createFunc obj
  updateFunc old new := f.updateFunc old new && g.updateFunc old new
  deleteFunc obj := f.deleteFunc obj && g.deleteFunc obj
  genericFunc obj := f.genericFunc obj && g.genericFunc obj

/-- `predicate.NewPredicateFuncs`: of an update, the new object is tested. -/
def newPredicateFuncs (filter : α → Bool) : Funcs α where
  createFunc := filter
  updateFunc _ new := filter new
  deleteFunc := filter
  genericFunc := filter

/-- `predicate.GenerationChangedPredicate`. -/
def generationChangedPredicate [HasMeta α] : Funcs α where
  updateFunc old new := (HasMeta.metadata old).generation != (HasMeta.metadata new).generation

end Funcs

open Funcs

/-- `onlyUpdatePredicate`; deletions pass too. -/
def onlyUpdatePredicate : Funcs LatticeEndpoint where
  createFunc _ := false

def ownedCMPredicate : Funcs ConfigMap :=
  newPredicateFuncs fun cm =>
    cm.metadata.labels.get "app.kubernetes.io/managed-by" == "lattice-controller"

def configMapPredicate : Funcs ConfigMap where
  createFunc _ := false
  updateFunc oldCm newCm := !oldCm.data.deepEqual newCm.data

def networkReadyPredicate : Funcs LatticeNetwork where
  createFunc _ := false
  updateFunc oldNet newNet :=
    oldNet.metadata.generation != newNet.metadata.generation ||
      (oldNet.activeCIDR == "" && newNet.activeCIDR != "")
  deleteFunc _ := false
  genericFunc _ := false

/-! ## Map functions

Each returns nothing when its read fails. -/

/-- One request for each listed peer. -/
def requestsFor : Except GoError (List LatticePeer) → List NamespacedName
  | .ok nodes => nodes.map fun node => node.metadata.key
  | .error _ => []

def mapNetworkForNodes (network : LatticeNetwork) : Prog (List NamespacedName) := do
  let nodes ← Client.listPeers network.metadata.ns everything
    [(networkLabelKey network.metadata.name, "true")]
  pure (requestsFor nodes)

def mapConfigMapForNodes (cm : ConfigMap) : Prog (List NamespacedName) := do
  match ← Client.getPeer ⟨cm.metadata.ns, trimSuffix cm.metadata.name "-config"⟩ with
  | .ok node => pure [node.metadata.key]
  | .error _ => pure []

/-- Every peer of the endpoint's namespace. -/
def mapEndpointForNodes (endpoint : LatticeEndpoint) : Prog (List NamespacedName) := do
  let nodes ← Client.listPeers endpoint.metadata.ns everything []
  pure (requestsFor nodes)

def mapPolicyForNodes (lib : SelectorLibrary) (policy : LatticePolicy) :
    Prog (List NamespacedName) :=
  match lib.labelSelectorAsSelector (some policy.peerSelector) with
  | .error _ => pure []
  | .ok selector => do
      let nodes ← Client.listPeers policy.metadata.ns selector (networkRequirement policy.network)
      pure (requestsFor nodes)

/-! ## The watches -/

/-- `handler.EnqueueRequestForObject`. -/
def enqueueRequestForObject {α : Type} [HasMeta α] : Event α → List NamespacedName
  | .create obj => [(HasMeta.metadata obj).key]
  | .update _ new => [(HasMeta.metadata new).key]
  | .delete obj => [(HasMeta.metadata obj).key]
  | .generic obj => [(HasMeta.metadata obj).key]

/-- `handler.EnqueueRequestsFromMapFunc`. -/
def enqueueRequestsFromMapFunc {α : Type} (map : α → Prog (List NamespacedName)) :
    Event α → Prog (List NamespacedName)
  | .create obj => map obj
  | .update old new => do
      let requests ← map old
      let requests' ← map new
      pure (requests ++ requests')
  | .delete obj => map obj
  | .generic obj => map obj

/-- One watch: what passes the predicate is mapped to requests. -/
def watch {α : Type} (predicate : Funcs α) (map : α → Prog (List NamespacedName)) (e : Event α) :
    Prog (List NamespacedName) :=
  if predicate.passes e then enqueueRequestsFromMapFunc map e else pure []

/-- An event on an object of a watched kind. -/
inductive WatchEvent
  | peer (e : Event LatticePeer)
  | network (e : Event LatticeNetwork)
  | endpoint (e : Event LatticeEndpoint)
  | configMap (e : Event ConfigMap)
  | policy (e : Event LatticePolicy)

/-- The reconcile requests that `SetupWithManager` makes of an event. -/
def requests (lib : SelectorLibrary) : WatchEvent → Prog (List NamespacedName)
  | .peer e =>
      -- `For`: a changed peer wakes itself only
      pure (if generationChangedPredicate.passes e then enqueueRequestForObject e else [])
  | .network e => watch networkReadyPredicate mapNetworkForNodes e
  | .endpoint e => watch (onlyUpdatePredicate.and generationChangedPredicate) mapEndpointForNodes e
  | .configMap e => watch (configMapPredicate.and ownedCMPredicate) mapConfigMapForNodes e
  | .policy e => watch generationChangedPredicate (mapPolicyForNodes lib) e

end Wireflow.Controller
