/-
# The API server's store

Objects are kept in tables, one per kind. A `Table` carries the proof that each
object sits under its own namespace and name, so names are unique in a namespace
by construction.

Writes to a peer follow the API server: a merge patch changes the fields in which
the modified object differs from the base it was computed from and leaves the
others as they are now, the status is written through its own subresource, and a
full update is rejected unless it carries the current resource version.
-/

import Wireflow.Api.Types

namespace Wireflow.Api

open Go (GoMap Order)

/-- A kind of object with metadata. -/
class HasMeta (α : Type) where
  metadata : α → ObjectMeta

instance : HasMeta LatticePeer := ⟨LatticePeer.metadata⟩
instance : HasMeta LatticeNetwork := ⟨LatticeNetwork.metadata⟩
instance : HasMeta LatticePolicy := ⟨LatticePolicy.metadata⟩
instance : HasMeta LatticeEndpoint := ⟨LatticeEndpoint.metadata⟩
instance : HasMeta ConfigMap := ⟨ConfigMap.metadata⟩
instance : HasMeta LatticeGlobalIPPool := ⟨LatticeGlobalIPPool.metadata⟩
instance : HasMeta LatticeSubnetAllocation := ⟨LatticeSubnetAllocation.metadata⟩
instance : HasMeta LatticeEnrollmentToken := ⟨LatticeEnrollmentToken.metadata⟩

/-! ## Tables -/

/-- The objects of one kind, each under its own key. -/
structure Table (α : Type) [HasMeta α] where
  objects : GoMap NamespacedName α
  keyed : ∀ k a, objects.lookup k = some a → (HasMeta.metadata a).key = k

namespace Table

variable {α : Type} [HasMeta α]

def empty : Table α := ⟨∅, by simp⟩

def get (t : Table α) (k : NamespacedName) : Option α := t.objects.lookup k

variable {t : Table α} {k : NamespacedName} {a : α}

theorem key_of_get (h : t.get k = some a) :
    (HasMeta.metadata a).key = k := t.keyed k a h

/-- Store an object under its own key. -/
def put (t : Table α) (a : α) : Table α where
  objects := t.objects.insert (HasMeta.metadata a).key a
  keyed k b h := by
    by_cases hk : k = (HasMeta.metadata a).key
    · subst hk
      rw [AList.lookup_insert, Option.some_inj] at h
      rw [h]
    · rw [AList.lookup_insert_ne hk] at h
      exact t.keyed k b h

def erase (t : Table α) (key : NamespacedName) : Table α where
  objects := t.objects.erase key
  keyed k b h := by
    by_cases hk : k = key
    · subst hk
      simp at h
    · rw [AList.lookup_erase_ne hk] at h
      exact t.keyed k b h

/-- Remove every object of a namespace. -/
def dropNamespace (t : Table α) (ns : String) : Table α where
  objects := t.objects.deleteWhere fun k => k.ns == ns
  keyed k b h := by
    rw [GoMap.lookup_deleteWhere] at h
    split_ifs at h
    exact t.keyed k b h

/-- The objects of a namespace, in an order the server leaves open. -/
def list (t : Table α) (ns : String) (order : Order) : List α :=
  ((t.objects.range order).filter fun e => e.1.ns == ns).map Prod.snd

/-- The objects of all namespaces. -/
def listAll (t : Table α) (order : Order) : List α := (t.objects.range order).map Prod.snd

def ofList (objects : List α) : Table α := objects.foldl put empty

@[simp] theorem get_put_self (t : Table α) (a : α) :
    (t.put a).get (HasMeta.metadata a).key = some a :=
  AList.lookup_insert _

theorem get_put_ne (h : k ≠ (HasMeta.metadata a).key) : (t.put a).get k = t.get k :=
  AList.lookup_insert_ne h

/-- What is there stays when something new is put. -/
theorem get_put_of_free {a b : α} (hfree : t.get (HasMeta.metadata a).key = none)
    (h : t.get k = some b) :
    (t.put a).get k = some b := by
  refine (get_put_ne fun heq => ?_).trans h
  rw [heq, hfree] at h
  cases h

@[simp] theorem get_erase_self (t : Table α) (k : NamespacedName) : (t.erase k).get k = none :=
  AList.lookup_erase _ _

theorem get_erase_ne {k key : NamespacedName} (h : k ≠ key) :
    (t.erase key).get k = t.get k :=
  AList.lookup_erase_ne h

theorem get_dropNamespace (t : Table α) (ns : String) (k : NamespacedName) :
    (t.dropNamespace ns).get k = if k.ns == ns then none else t.get k :=
  GoMap.lookup_deleteWhere _ _ _

/-- An update is visible at its own key and nowhere else. -/
theorem get_put_cases {a b : α} (h : (t.put a).get k = some b) :
    (k = (HasMeta.metadata a).key ∧ b = a) ∨ (k ≠ (HasMeta.metadata a).key ∧ t.get k = some b) := by
  by_cases hk : k = (HasMeta.metadata a).key
  · subst hk
    rw [get_put_self, Option.some_inj] at h
    exact .inl ⟨rfl, h.symm⟩
  · rw [get_put_ne hk] at h
    exact .inr ⟨hk, h⟩

variable {order : Order}

theorem mem_list {ns : String} :
    a ∈ t.list ns order ↔ (HasMeta.metadata a).ns = ns ∧
      t.get (HasMeta.metadata a).key = some a := by
  simp only [list, List.mem_map, List.mem_filter, beq_iff_eq, Prod.exists, GoMap.mem_range]
  constructor
  · rintro ⟨k, b, ⟨hlookup, hns⟩, rfl⟩
    obtain rfl := t.keyed k b hlookup
    exact ⟨hns, hlookup⟩
  · rintro ⟨hns, hget⟩
    exact ⟨_, a, ⟨hget, hns⟩, rfl⟩

theorem mem_listAll :
    a ∈ t.listAll order ↔ t.get (HasMeta.metadata a).key = some a := by
  simp only [listAll, List.mem_map, Prod.exists, GoMap.mem_range]
  constructor
  · intro h
    obtain ⟨k, b, hlookup, rfl⟩ := h
    obtain rfl := t.keyed k b hlookup
    exact hlookup
  · intro hget
    exact ⟨_, a, hget, rfl⟩

/-- Objects of one namespace with one name are the same object. -/
theorem eq_of_mem_list {ns : String} {a b : α} (ha : a ∈ t.list ns order) (hb : b ∈ t.list ns order)
    (hname : (HasMeta.metadata a).name = (HasMeta.metadata b).name) : a = b := by
  obtain ⟨hnsa, hgeta⟩ := mem_list.mp ha
  obtain ⟨hnsb, hgetb⟩ := mem_list.mp hb
  have hkey : (HasMeta.metadata a).key = (HasMeta.metadata b).key := by
    rw [ObjectMeta.key, ObjectMeta.key, hnsa, hnsb, hname]
  rw [hkey, hgetb] at hgeta
  exact (Option.some.inj hgeta).symm

end Table

/-- Everything the controllers read and write. -/
structure Store where
  peers : Table LatticePeer := .empty
  networks : Table LatticeNetwork := .empty
  policies : Table LatticePolicy := .empty
  endpoints : Table LatticeEndpoint := .empty
  configMaps : Table ConfigMap := .empty
  pools : Table LatticeGlobalIPPool := .empty
  allocations : Table LatticeSubnetAllocation := .empty
  tokens : Table LatticeEnrollmentToken := .empty

/-! ## Merge patches -/

/-- One field of a merge patch computed from `base` to `modified`. -/
def mergeField {β : Type} [DecidableEq β] (base modified current : β) : β :=
  if base = modified then current else modified

/-- A map under a merge patch: keys dropped from `base` are deleted and changed ones
are set. -/
def mergeLabels (base modified current : Labels) : Labels :=
  let dropped := current.deleteWhere fun k =>
    (base.lookup k).isSome && (modified.lookup k).isNone
  (modified.pairs.filter fun e => base.lookup e.1 ≠ some e.2).foldl
    (fun acc e => acc.insert e.1 e.2) dropped

def mergeSpec (base modified current : LatticePeerSpec) : LatticePeerSpec where
  appId := mergeField base.appId modified.appId current.appId
  interfaceName := mergeField base.interfaceName modified.interfaceName current.interfaceName
  platform := mergeField base.platform modified.platform current.platform
  privateKey := mergeField base.privateKey modified.privateKey current.privateKey
  publicKey := mergeField base.publicKey modified.publicKey current.publicKey
  peerId := mergeField base.peerId modified.peerId current.peerId
  network := mergeField base.network modified.network current.network

def mergeStatus (base modified current : LatticePeerStatus) : LatticePeerStatus where
  conditions := mergeField base.conditions modified.conditions current.conditions
  phase := mergeField base.phase modified.phase current.phase
  activeNetwork := mergeField base.activeNetwork modified.activeNetwork current.activeNetwork
  allocatedAddress :=
    mergeField base.allocatedAddress modified.allocatedAddress current.allocatedAddress
  currentHash := mergeField base.currentHash modified.currentHash current.currentHash

def mergeTokenStatus (base modified current : LatticeEnrollmentTokenStatus) :
    LatticeEnrollmentTokenStatus where
  token := mergeField base.token modified.token current.token
  boundPeers := mergeField base.boundPeers modified.boundPeers current.boundPeers
  phase := mergeField base.phase modified.phase current.phase
  usedCount := mergeField base.usedCount modified.usedCount current.usedCount
  isExpired := mergeField base.isExpired modified.isExpired current.isExpired

@[simp] theorem mergeField_self {β : Type} [DecidableEq β] (base current : β) :
    mergeField base base current = current := if_pos rfl

theorem lookup_foldl_insert_of_notMem (entries : List (String × String)) (m : Labels)
    {k : String} (h : k ∉ entries.map Prod.fst) :
    (entries.foldl (fun acc e => acc.insert e.1 e.2) m).lookup k = m.lookup k := by
  induction entries generalizing m with
  | nil => rfl
  | cons e rest ih =>
    rw [List.map_cons, List.mem_cons, not_or] at h
    rw [List.foldl_cons, ih _ h.2, AList.lookup_insert_ne h.1]

/-- A key on which base and modified agree is left alone. -/
theorem lookup_mergeLabels_of_eq {base modified current : Labels} {k : String}
    (h : base.lookup k = modified.lookup k) :
    (mergeLabels base modified current).lookup k = current.lookup k := by
  rw [mergeLabels, lookup_foldl_insert_of_notMem, GoMap.lookup_deleteWhere]
  · rw [h]
    cases modified.lookup k <;> simp
  · intro hmem
    obtain ⟨⟨k', v⟩, hentry, rfl⟩ := List.mem_map.mp hmem
    obtain ⟨hpair, hchanged⟩ := List.mem_filter.mp hentry
    rw [GoMap.mem_pairs] at hpair
    simp [h, hpair] at hchanged

/-! ## Writes

Each write either reports the API error it meets or returns its answer and the
store it leaves. -/

/-- `apierrors.NewNotFound`. -/
def notFoundError (resource name : String) : GoError :=
  { kind := .notFound, text := resource ++ " \"" ++ name ++ "\" not found" }

/-- `apierrors.NewAlreadyExists`. -/
def alreadyExistsError (resource name : String) : GoError :=
  { kind := .alreadyExists, text := resource ++ " \"" ++ name ++ "\" already exists" }

/-- `apierrors.NewConflict` for a stale resource version. -/
def conflictError (resource name : String) : GoError :=
  { kind := .conflict
    text := "Operation cannot be fulfilled on " ++ resource ++ " \"" ++ name ++
      "\": the object has been modified; please apply your changes to the latest version " ++
      "and try again" }

def peerResource : String := "latticepeers.alattice.io"
def networkResource : String := "latticenetworks.alattice.io"
def endpointResource : String := "latticeendpoints.alattice.io"
def poolResource : String := "latticeglobalippools.alattice.io"
def allocationResource : String := "latticesubnetallocations.alattice.io"
def tokenResource : String := "latticeenrollmenttokens.alattice.io"
def policyResource : String := "latticepolicies.alattice.io"
def peeringResource : String := "latticenetworkpeerings.alattice.io"

/-- The generation counts changes of the spec. -/
def nextGeneration (current : LatticePeer) (spec : LatticePeerSpec) : ℕ :=
  if spec = current.spec then current.metadata.generation else current.metadata.generation + 1

/-- A peer after a merge patch of spec, labels and annotations. -/
def patchedPeer (base modified current : LatticePeer) : LatticePeer :=
  let spec := mergeSpec base.spec modified.spec current.spec
  { current with
    spec := spec
    metadata := { current.metadata with
      labels := mergeLabels base.metadata.labels modified.metadata.labels current.metadata.labels
      annotations := mergeLabels base.metadata.annotations modified.metadata.annotations
        current.metadata.annotations
      generation := nextGeneration current spec
      resourceVersion := current.metadata.resourceVersion + 1 } }

/-- A peer after a merge patch of its status. -/
def patchedPeerStatus (base modified current : LatticePeer) : LatticePeer :=
  { current with
    status := mergeStatus base.status modified.status current.status
    metadata := { current.metadata with
      resourceVersion := current.metadata.resourceVersion + 1 } }

/-- A peer after a full update; the status is a subresource and stays. -/
def updatedPeer (obj current : LatticePeer) : LatticePeer :=
  { current with
    spec := obj.spec
    metadata := { current.metadata with
      labels := obj.metadata.labels
      annotations := obj.metadata.annotations
      finalizers := obj.metadata.finalizers
      generation := nextGeneration current obj.spec
      resourceVersion := current.metadata.resourceVersion + 1 } }

/-- A network after a merge patch of its status. -/
def patchedNetworkStatus (base modified current : LatticeNetwork) : LatticeNetwork :=
  { current with
    activeCIDR := mergeField base.activeCIDR modified.activeCIDR current.activeCIDR
    phase := mergeField base.phase modified.phase current.phase
    allocatedCount := mergeField base.allocatedCount modified.allocatedCount current.allocatedCount
    metadata := { current.metadata with
      resourceVersion := current.metadata.resourceVersion + 1 } }

/-- A token with another status. -/
def withTokenStatus (status : LatticeEnrollmentTokenStatus) (current : LatticeEnrollmentToken) :
    LatticeEnrollmentToken :=
  { current with
    status := status
    metadata := { current.metadata with
      resourceVersion := current.metadata.resourceVersion + 1 } }

namespace Store

/-- Look a peer up, or report that it is not there. -/
def findPeer (s : Store) (key : NamespacedName) : Except GoError LatticePeer :=
  match s.peers.get key with
  | some p => .ok p
  | none => .error (notFoundError peerResource key.name)

def patchPeer (s : Store) (base modified : LatticePeer) : Except GoError (LatticePeer × Store) := do
  let current ← s.findPeer modified.metadata.key
  let p := patchedPeer base modified current
  pure (p, { s with peers := s.peers.put p })

def patchPeerStatus (s : Store) (base modified : LatticePeer) :
    Except GoError (LatticePeer × Store) := do
  let current ← s.findPeer modified.metadata.key
  let p := patchedPeerStatus base modified current
  pure (p, { s with peers := s.peers.put p })

/-- A full update. A peer marked for deletion goes away with its last finalizer. -/
def updatePeer (s : Store) (obj : LatticePeer) : Except GoError (Unit × Store) := do
  let current ← s.findPeer obj.metadata.key
  let p := updatedPeer obj current
  if obj.metadata.resourceVersion ≠ current.metadata.resourceVersion then
    .error (conflictError peerResource obj.metadata.name)
  else if p.metadata.deletionTimestamp.isSome && p.metadata.finalizers.isEmpty then
    pure ((), { s with peers := s.peers.erase p.metadata.key })
  else pure ((), { s with peers := s.peers.put p })

/-- Creation is atomic and fails when the name is taken. -/
def createEndpoint (s : Store) (ep : LatticeEndpoint) : Except GoError (Unit × Store) :=
  match s.endpoints.get ep.metadata.key with
  | some _ => .error (alreadyExistsError endpointResource ep.metadata.name)
  | none => .ok ((), { s with endpoints := s.endpoints.put ep })

def deleteEndpoint (s : Store) (key : NamespacedName) : Except GoError (Unit × Store) :=
  match s.endpoints.get key with
  | some _ => .ok ((), { s with endpoints := s.endpoints.erase key })
  | none => .error (notFoundError endpointResource key.name)

def patchNetworkStatus (s : Store) (base modified : LatticeNetwork) :
    Except GoError (LatticeNetwork × Store) :=
  match s.networks.get modified.metadata.key with
  | none => .error (notFoundError networkResource modified.metadata.name)
  | some current =>
      let n := patchedNetworkStatus base modified current
      .ok (n, { s with networks := s.networks.put n })

/-- Creation is atomic and fails when the name is taken. -/
def createAllocation (s : Store) (alloc : LatticeSubnetAllocation) :
    Except GoError (Unit × Store) :=
  match s.allocations.get alloc.metadata.key with
  | some _ => .error (alreadyExistsError allocationResource alloc.metadata.name)
  | none => .ok ((), { s with allocations := s.allocations.put alloc })

def patchTokenStatus (s : Store) (base modified : LatticeEnrollmentToken) :
    Except GoError (Unit × Store) :=
  match s.tokens.get modified.metadata.key with
  | none => .error (notFoundError tokenResource modified.metadata.name)
  | some current =>
      let t := withTokenStatus (mergeTokenStatus base.status modified.status current.status) current
      .ok ((), { s with tokens := s.tokens.put t })

/-- An update of the status, rejected unless it carries the current resource version. -/
def updateTokenStatus (s : Store) (obj : LatticeEnrollmentToken) : Except GoError (Unit × Store) :=
  match s.tokens.get obj.metadata.key with
  | none => .error (notFoundError tokenResource obj.metadata.name)
  | some current =>
      if obj.metadata.resourceVersion ≠ current.metadata.resourceVersion then
        .error (conflictError tokenResource obj.metadata.name)
      else .ok ((), { s with tokens := s.tokens.put (withTokenStatus obj.status current) })

/-- Set every key of `applied`. -/
def applyLabels (current applied : Labels) : Labels :=
  applied.pairs.foldl (fun acc e => acc.insert e.1 e.2) current

/-- Server-side apply of a configuration map: the applied keys are set, others stay,
and a missing object is created. -/
def applyConfigMap (s : Store) (cm : ConfigMap) : Except GoError (Unit × Store) :=
  let current := (s.configMaps.get cm.metadata.key).getD { metadata := {} }
  let merged : ConfigMap :=
    { metadata := { current.metadata with
        ns := cm.metadata.ns
        name := cm.metadata.name
        labels := applyLabels current.metadata.labels cm.metadata.labels
        annotations := applyLabels current.metadata.annotations cm.metadata.annotations
        controllerRef := cm.metadata.controllerRef }
      data := applyLabels current.data cm.data }
  .ok ((), { s with configMaps := s.configMaps.put merged })

/-! What a write that succeeds has found and what it leaves. -/

variable {s s' : Store} {key : NamespacedName} {base modified obj p : LatticePeer}
  {ep : LatticeEndpoint}

theorem findPeer_eq_ok (h : s.findPeer key = .ok p) : s.peers.get key = some p := by
  unfold findPeer at h
  cases hget : s.peers.get key with
  | none => simp [hget] at h
  | some q => simpa [hget] using h

/-- The peer found under a key, carried through a write that keeps its identity. -/
theorem findPeer_cases {β : Type} {f : LatticePeer → Except GoError β} {b : β}
    (h : (s.findPeer key >>= f) = .ok b) :
    ∃ current, s.peers.get key = some current ∧ current.metadata.key = key ∧ f current = .ok b := by
  cases hfind : s.findPeer key with
  | error err => simp [hfind, bind, Except.bind] at h
  | ok current =>
    have hget := findPeer_eq_ok hfind
    exact ⟨current, hget, Table.key_of_get hget, by simpa [hfind, bind, Except.bind] using h⟩

theorem patchPeer_eq_ok (h : s.patchPeer base modified = .ok (p, s')) :
    ∃ current, s.peers.get modified.metadata.key = some current ∧
      current.metadata.key = modified.metadata.key ∧
      p = patchedPeer base modified current ∧ s' = { s with peers := s.peers.put p } := by
  obtain ⟨current, hget, hkey, heq⟩ := findPeer_cases h
  cases heq
  exact ⟨current, hget, hkey, rfl, rfl⟩

theorem patchPeerStatus_eq_ok (h : s.patchPeerStatus base modified = .ok (p, s')) :
    ∃ current, s.peers.get modified.metadata.key = some current ∧
      current.metadata.key = modified.metadata.key ∧
      p = patchedPeerStatus base modified current ∧ s' = { s with peers := s.peers.put p } := by
  obtain ⟨current, hget, hkey, heq⟩ := findPeer_cases h
  cases heq
  exact ⟨current, hget, hkey, rfl, rfl⟩

theorem updatePeer_eq_ok (h : s.updatePeer obj = .ok ((), s')) :
    ∃ current, s.peers.get obj.metadata.key = some current ∧
      current.metadata.key = obj.metadata.key ∧
      (s' = { s with peers := s.peers.put (updatedPeer obj current) } ∨
        s' = { s with peers := s.peers.erase (updatedPeer obj current).metadata.key }) := by
  obtain ⟨current, hget, hkey, heq⟩ := findPeer_cases h
  refine ⟨current, hget, hkey, ?_⟩
  by_cases hversion : obj.metadata.resourceVersion ≠ current.metadata.resourceVersion
  · rw [if_pos hversion] at heq
    cases heq
  · rw [if_neg hversion] at heq
    split at heq
    · cases heq
      exact .inr rfl
    · cases heq
      exact .inl rfl

/-- A peer that is not being deleted stays. -/
theorem updatePeer_alive (h : s.updatePeer obj = .ok ((), s'))
    (hget : s.peers.get obj.metadata.key = some p)
    (halive : p.metadata.deletionTimestamp = none) :
    s' = { s with peers := s.peers.put (updatedPeer obj p) } := by
  obtain ⟨current, hcurrent, -, heq⟩ := findPeer_cases h
  obtain rfl := Option.some.inj (hcurrent.symm.trans hget)
  have hstays : ¬ ((updatedPeer obj current).metadata.deletionTimestamp.isSome &&
      (updatedPeer obj current).metadata.finalizers.isEmpty) = true := by
    have hdeletion : (updatedPeer obj current).metadata.deletionTimestamp = none := halive
    rw [hdeletion]
    exact Bool.false_ne_true
  dsimp only at heq
  split_ifs at heq
  cases heq
  rfl

theorem createEndpoint_eq_ok (h : s.createEndpoint ep = .ok ((), s')) :
    s.endpoints.get ep.metadata.key = none ∧ s' = { s with endpoints := s.endpoints.put ep } := by
  unfold createEndpoint at h
  cases hget : s.endpoints.get ep.metadata.key with
  | some _ => simp [hget] at h
  | none =>
    rw [hget] at h
    cases h
    exact ⟨rfl, rfl⟩

theorem patchNetworkStatus_eq_ok {base modified n : LatticeNetwork}
    (h : s.patchNetworkStatus base modified = .ok (n, s')) :
    ∃ current, s.networks.get modified.metadata.key = some current ∧
      n = patchedNetworkStatus base modified current ∧
      s' = { s with networks := s.networks.put n } := by
  unfold patchNetworkStatus at h
  cases hget : s.networks.get modified.metadata.key with
  | none => simp [hget] at h
  | some current =>
    rw [hget] at h
    cases h
    exact ⟨current, rfl, rfl, rfl⟩

theorem createAllocation_eq_ok {alloc : LatticeSubnetAllocation}
    (h : s.createAllocation alloc = .ok ((), s')) :
    s.allocations.get alloc.metadata.key = none ∧
      s' = { s with allocations := s.allocations.put alloc } := by
  unfold createAllocation at h
  cases hget : s.allocations.get alloc.metadata.key with
  | some _ => simp [hget] at h
  | none =>
    rw [hget] at h
    cases h
    exact ⟨rfl, rfl⟩

theorem patchTokenStatus_eq_ok {base modified : LatticeEnrollmentToken}
    (h : s.patchTokenStatus base modified = .ok ((), s')) :
    ∃ current, s.tokens.get modified.metadata.key = some current ∧
      s' = { s with
        tokens := s.tokens.put (withTokenStatus
          (mergeTokenStatus base.status modified.status current.status) current) } := by
  unfold patchTokenStatus at h
  cases hget : s.tokens.get modified.metadata.key with
  | none => simp [hget] at h
  | some current =>
    rw [hget] at h
    cases h
    exact ⟨current, rfl, rfl⟩

theorem updateTokenStatus_eq_ok {obj : LatticeEnrollmentToken}
    (h : s.updateTokenStatus obj = .ok ((), s')) :
    ∃ current, s.tokens.get obj.metadata.key = some current ∧
      obj.metadata.resourceVersion = current.metadata.resourceVersion ∧
      s' = { s with tokens := s.tokens.put (withTokenStatus obj.status current) } := by
  unfold updateTokenStatus at h
  cases hget : s.tokens.get obj.metadata.key with
  | none => simp [hget] at h
  | some current =>
    rw [hget] at h
    dsimp only at h
    split_ifs at h with hversion
    cases h
    exact ⟨current, rfl, not_not.mp hversion, rfl⟩

/-- An apply always succeeds, and puts one object in place. -/
theorem applyConfigMap_eq_ok (s : Store) (cm : ConfigMap) :
    ∃ stored, s.applyConfigMap cm = .ok ((), { s with configMaps := s.configMaps.put stored }) ∧
      stored.metadata.key = cm.metadata.key ∧
      stored.data = applyLabels
        ((s.configMaps.get cm.metadata.key).getD { metadata := {} }).data cm.data :=
  ⟨_, rfl, rfl, rfl⟩

theorem deleteEndpoint_eq_ok (h : s.deleteEndpoint key = .ok ((), s')) :
    s' = { s with endpoints := s.endpoints.erase key } := by
  unfold deleteEndpoint at h
  cases hget : s.endpoints.get key with
  | none => simp [hget] at h
  | some _ =>
    rw [hget] at h
    cases h
    rfl

end Store

end Wireflow.Api
