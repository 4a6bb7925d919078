/-
# The objects the controllers work on

The custom resources of `api/v1alpha1` and the Kubernetes types they are built
from, with the fields that some modelled function reads or writes. Objects are
identified by namespace and name. A pointer field is an `Option`, a map field a
`GoMap`, and a time is a number of seconds.
-/

import Wireflow.Go.Map

namespace Wireflow.Api

open Go (GoMap)

/-- `types.NamespacedName`. -/
structure NamespacedName where
  ns : String
  name : String
  deriving DecidableEq, Repr

/-- `map[string]string`, as labels and annotations are kept. -/
abbrev Labels := GoMap String String

/-- `m[key]` on a string map: the empty string when absent. -/
def Labels.get (m : Labels) (key : String) : String := (m.lookup key).getD ""

/-- `metav1.ObjectMeta`. -/
structure ObjectMeta where
  ns : String := ""
  name : String := ""
  uid : String := ""
  labels : Labels := ∅
  annotations : Labels := ∅
  finalizers : List String := []
  deletionTimestamp : Option ℕ := none
  generation : ℕ := 1
  resourceVersion : ℕ := 1
  /-- UID of the owner that `SetControllerReference` recorded. -/
  controllerRef : Option String := none

def ObjectMeta.key (m : ObjectMeta) : NamespacedName := ⟨m.ns, m.name⟩

/-- `metav1.ConditionStatus`. -/
inductive ConditionStatus
  | true
  | false
  | unknown
  deriving DecidableEq, Repr

/-- `metav1.Condition`. -/
structure Condition where
  type : String
  status : ConditionStatus
  reason : String := ""
  message : String := ""
  observedGeneration : ℤ := 0
  lastTransitionTime : ℕ := 0
  deriving DecidableEq, Repr

/-! ## Peers -/

/-- `LatticePeerPhase`; the empty phase is that of a peer nobody has touched. -/
inductive LatticePeerPhase
  | empty
  | pending
  | provisioning
  | failed
  | ready
  deriving DecidableEq, Repr

structure LatticePeerSpec where
  appId : String := ""
  interfaceName : String := ""
  platform : String := ""
  privateKey : String := ""
  publicKey : String := ""
  peerId : String := ""
  network : Option String := none
  deriving DecidableEq, Repr

structure LatticePeerStatus where
  conditions : List Condition := []
  phase : LatticePeerPhase := .empty
  activeNetwork : Option String := none
  allocatedAddress : Option String := none
  currentHash : String := ""
  deriving DecidableEq, Repr

structure LatticePeer where
  metadata : ObjectMeta
  spec : LatticePeerSpec := {}
  status : LatticePeerStatus := {}

namespace NodeCondition

def initialized : String := "Initialized"
def provisioned : String := "Provisioned"
def joiningNetwork : String := "JoiningNetwork"
def networkConfigured : String := "NetworkConfigured"
def ipAllocated : String := "IPAllocated"

end NodeCondition

namespace Reason

def configuring : String := "Configuring"
def ready : String := "Ready"
def notReady : String := "NotReady"
def leaving : String := "Leaving"
def allocationFailed : String := "AllocationFailed"
def configFailed : String := "ConfigurationFailed"

end Reason

/-! ## Networks, subnets, endpoints, configuration maps -/

/-- `LatticeNetworkPhase`; `creating` is written `Pending`. -/
inductive LatticeNetworkPhase
  | empty
  | creating
  | ready
  | failed
  deriving DecidableEq, Repr

structure LatticeNetwork where
  metadata : ObjectMeta
  /-- `Spec.Name`, the display name. -/
  specName : String := ""
  /-- `Status.ActiveCIDR`, empty until a subnet is assigned. -/
  activeCIDR : String := ""
  /-- `Status.Phase`. -/
  phase : LatticeNetworkPhase := .empty
  /-- `Status.AllocatedCount`. -/
  allocatedCount : ℤ := 0

/-- `LatticeGlobalIPPool`: the range that subnets are cut from, and their prefix length. -/
structure LatticeGlobalIPPool where
  metadata : ObjectMeta
  cidr : String
  subnetMask : ℤ

structure LatticeSubnetAllocation where
  metadata : ObjectMeta
  networkName : String
  cidr : String

structure LatticeEndpoint where
  metadata : ObjectMeta
  address : String
  peerRef : String

structure ConfigMap where
  metadata : ObjectMeta
  data : GoMap String String := ∅

/-! ## Enrollment tokens -/

inductive TokenPhase
  | empty
  | active
  | expired
  | exhausted
  deriving DecidableEq, Repr

structure LatticeEnrollmentTokenSpec where
  token : String := ""
  usageLimit : ℤ := 0
  expiry : ℕ := 0
  boundPeers : List String := []
  deriving DecidableEq, Repr

structure LatticeEnrollmentTokenStatus where
  token : String := ""
  boundPeers : List String := []
  phase : TokenPhase := .empty
  usedCount : ℤ := 0
  isExpired : Bool := false
  deriving DecidableEq, Repr

structure LatticeEnrollmentToken where
  metadata : ObjectMeta
  spec : LatticeEnrollmentTokenSpec := {}
  status : LatticeEnrollmentTokenStatus := {}

/-! ## Policies -/

/-- `metav1.LabelSelectorRequirement`. -/
structure LabelSelectorRequirement where
  key : String
  operator : String
  values : List String := []
  deriving DecidableEq

/-- `metav1.LabelSelector`. -/
structure LabelSelector where
  matchLabels : Labels := ∅
  matchExpressions : List LabelSelectorRequirement := []
  deriving DecidableEq

structure IPBlock where
  cidr : String := ""
  deriving DecidableEq

structure PeerSelection where
  peerSelector : Option LabelSelector := none
  ipBlock : Option IPBlock := none
  deriving DecidableEq

/-- `Port` is an `int32`. -/
structure NetworkPolicyPort where
  port : Int := 0
  protocol : String := ""
  deriving DecidableEq

/-- `IngressRule`; `fromPeers` is its field `From`. -/
structure IngressRule where
  fromPeers : List PeerSelection := []
  ports : List NetworkPolicyPort := []
  deriving DecidableEq

/-- `EgressRule`; `toPeers` is its field `To`. -/
structure EgressRule where
  toPeers : List PeerSelection := []
  ports : List NetworkPolicyPort := []
  deriving DecidableEq

structure LatticePolicy where
  metadata : ObjectMeta
  network : String := ""
  peerSelector : LabelSelector := {}
  ingress : List IngressRule := []
  egress : List EgressRule := []
  action : String := ""

/-! ## Errors and label selectors -/

/-- What callers distinguish in an error. -/
inductive ErrorKind
  | notFound
  | alreadyExists
  | conflict
  | other
  /-- A run-time panic, recovered by the controller runtime and returned as an error. -/
  | panic
  deriving DecidableEq, Repr

/-- A Go error: its text, and the API status it wraps if any. -/
structure GoError where
  kind : ErrorKind := .other
  text : String
  deriving DecidableEq, Repr

/-- `fmt.Errorf("<pre>%w", err)`: the text grows, the wrapped status stays. -/
def GoError.wrap (pre : String) (err : GoError) : GoError := { err with text := pre ++ err.text }

/-- `labels.Selector`, by what it matches. -/
def Selector := Labels → Bool

/-- The label machinery of `k8s.io/apimachinery`, which the controllers call but
which is not part of this repository. -/
structure SelectorLibrary where
  /-- `metav1.LabelSelectorAsSelector`; a nil selector is `none`. -/
  labelSelectorAsSelector : Option LabelSelector → Except GoError Selector

/-- What is documented of the library: a null label selector matches no objects. -/
def SelectorLibrary.NilMatchesNothing (lib : SelectorLibrary) : Prop :=
  ∀ labels : Labels, ∃ sel, lib.labelSelectorAsSelector none = .ok sel ∧ sel labels = false

/-- The library on selectors made of `matchLabels` only. -/
def SelectorLibrary.matchLabelsOnly : SelectorLibrary where
  labelSelectorAsSelector
    | none => .ok fun _ => false
    | some selector => .ok fun labels =>
        selector.matchLabels.pairs.all fun e => labels.lookup e.1 == some e.2

end Wireflow.Api
