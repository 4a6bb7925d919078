/-
# Calls

What a reconciler does that is not pure: requests to the API server, and the few
things it asks of its own process (the time, a fresh key, the version counter, the
order in which a map is ranged over). Reconcilers are programs over these calls.

`exec` answers a call. Everything left open by the environment is in the `Choice`
that accompanies the call: whether it fails, whether a failing write took effect
nevertheless, how old the answer of a cached read is, and so on. A run is thus a
function of its choices, and a statement about all choices is a statement about
every behaviour of the environment.
-/

import Wireflow.Api.Store
import Wireflow.Controller.PolicyEvaluator
import Wireflow.Semantics.Program

namespace Wireflow.Controller

open Go (GoMap Order)
open Semantics
open Wireflow.Api

/-- A key pair as `ensureKeys` uses it. -/
structure WireGuardKey where
  privateKey : String := ""
  publicKey : String := ""
  /-- The first eight bytes of the public key as a number. -/
  peerId : ℕ := 0

inductive Call
  | getPeer (key : NamespacedName)
  | updatePeer (obj : LatticePeer)
  | patchPeer (base modified : LatticePeer)
  | patchPeerStatus (base modified : LatticePeer)
  | getNetwork (key : NamespacedName)
  /-- Peers of a namespace that a selector matches and that carry the given labels. -/
  | listPeers (ns : String) (selector : Selector) (required : List (String × String))
  | listPolicies (ns : String)
  | listEndpoints (ns : String)
  | createEndpoint (ep : LatticeEndpoint)
  | deleteEndpoint (key : NamespacedName)
  | getConfigMap (key : NamespacedName)
  | applyConfigMap (cm : ConfigMap)
  | setControllerReference
  | generatePrivateKey
  | now
  | mapOrders
  | generateConfigVersion

/-- The answer to a call. -/
@[reducible] def Call.Res : Call → Type
  | .getPeer _ => Except GoError LatticePeer
  | .updatePeer _ => Except GoError Unit
  | .patchPeer _ _ => Except GoError LatticePeer
  | .patchPeerStatus _ _ => Except GoError LatticePeer
  | .getNetwork _ => Except GoError LatticeNetwork
  | .listPeers _ _ _ => Except GoError (List LatticePeer)
  | .listPolicies _ => Except GoError (List LatticePolicy)
  | .listEndpoints _ => Except GoError (List LatticeEndpoint)
  | .createEndpoint _ => Except GoError Unit
  | .deleteEndpoint _ => Except GoError Unit
  | .getConfigMap _ => Except GoError ConfigMap
  | .applyConfigMap _ => Except GoError Unit
  | .setControllerReference => Except GoError Unit
  | .generatePrivateKey => Except GoError WireGuardKey
  | .now => ℕ
  | .mapOrders => MapOrders
  | .generateConfigVersion => String

/-- A program of the controller. -/
abbrev Prog (α : Type) := Program Call Call.Res α

/-- Issue one call. -/
def issue (c : Call) : Prog c.Res := Program.perform c

namespace Client

def getPeer (key : NamespacedName) : Prog (Except GoError LatticePeer) :=
  issue (.getPeer key)

def updatePeer (obj : LatticePeer) : Prog (Except GoError Unit) :=
  issue (.updatePeer obj)

/-- `Patch` with `client.MergeFrom(base)`. -/
def patchPeer (base modified : LatticePeer) : Prog (Except GoError LatticePeer) :=
  issue (.patchPeer base modified)

/-- `Status().Patch` with `client.MergeFrom(base)`. -/
def patchPeerStatus (base modified : LatticePeer) : Prog (Except GoError LatticePeer) :=
  issue (.patchPeerStatus base modified)

def getNetwork (key : NamespacedName) : Prog (Except GoError LatticeNetwork) :=
  issue (.getNetwork key)

def listPeers (ns : String) (selector : Selector) (required : List (String × String)) :
    Prog (Except GoError (List LatticePeer)) :=
  issue (.listPeers ns selector required)

def listPolicies (ns : String) : Prog (Except GoError (List LatticePolicy)) :=
  issue (.listPolicies ns)

def listEndpoints (ns : String) : Prog (Except GoError (List LatticeEndpoint)) :=
  issue (.listEndpoints ns)

def createEndpoint (ep : LatticeEndpoint) : Prog (Except GoError Unit) :=
  issue (.createEndpoint ep)

def deleteEndpoint (key : NamespacedName) : Prog (Except GoError Unit) :=
  issue (.deleteEndpoint key)

def getConfigMap (key : NamespacedName) : Prog (Except GoError ConfigMap) :=
  issue (.getConfigMap key)

/-- `Patch` with `client.Apply`. -/
def applyConfigMap (cm : ConfigMap) : Prog (Except GoError Unit) :=
  issue (.applyConfigMap cm)

def setControllerReference : Prog (Except GoError Unit) :=
  issue .setControllerReference

def generatePrivateKey : Prog (Except GoError WireGuardKey) :=
  issue .generatePrivateKey

def now : Prog ℕ := issue .now

def mapOrders : Prog MapOrders := issue .mapOrders

def generateConfigVersion : Prog String := issue .generateConfigVersion

end Client

/-! ## What answers them -/

/-- Why a request fails although the server could serve it. -/
inductive Fault
  /-- A timeout, a refused connection, a server error. -/
  | transient (text : String)
  /-- A write conflict reported by the server. -/
  | conflict (text : String)

def Fault.error : Fault → GoError
  | .transient text => { kind := .other, text := text }
  | .conflict text => { kind := .conflict, text := text }

/-- How the environment resolves one call. -/
structure Choice where
  fault : Option Fault := none
  /-- A failing write was applied before its answer got lost. -/
  lost : Bool := false
  /-- How many writes the cache that serves `getPeer` lags behind. -/
  lag : ℕ := 0
  /-- Order of the items of a list. -/
  listOrder : Order := Order.inPlace
  time : ℕ := 0
  key : WireGuardKey := {}
  orders : MapOrders := {}

/-- The state shared by all reconcilers. -/
structure World where
  store : Store := {}
  /-- Earlier stores that a cached read may still return, latest first. -/
  past : List Store := []
  /-- For each peer, the address in the copy that its reconciler works on. -/
  held : GoMap NamespacedName String := ∅
  /-- `Generator.versionCounter`. -/
  versionCounter : ℕ := 0

namespace World

/-- A write: the store before it becomes one that a stale read may see. -/
def commit (w : World) (s : Store) : World := { w with store := s, past := w.store :: w.past }

/-- The store a read with the given lag sees. -/
def seen (w : World) (lag : ℕ) : Store := ((w.store :: w.past)[lag]?).getD w.store

/-- The address in the copy that the reconciler of a peer works on. -/
def heldBy (w : World) (key : NamespacedName) : Option String := w.held.lookup key

/-- Record what the reconciler of a peer now holds. -/
def hold (w : World) (key : NamespacedName) (p : LatticePeer) : World :=
  { w with
    held := match p.status.allocatedAddress with
      | some address => w.held.insert key address
      | none => w.held.erase key }

variable {w : World} {key q : NamespacedName} {p : LatticePeer}

@[simp] theorem heldBy_hold_self : (w.hold key p).heldBy key = p.status.allocatedAddress := by
  unfold heldBy hold
  cases p.status.allocatedAddress with
  | none => exact AList.lookup_erase _ _
  | some address => exact AList.lookup_insert _

theorem heldBy_hold_ne (h : q ≠ key) : (w.hold key p).heldBy q = w.heldBy q := by
  unfold heldBy hold
  cases p.status.allocatedAddress with
  | none => exact AList.lookup_erase_ne h
  | some address => exact AList.lookup_insert_ne h

end World

/-- A read: it may fail, and changes nothing. -/
def Choice.read {α : Type} (choice : Choice) (answer : Except GoError α) : Except GoError α :=
  match choice.fault with
  | some f => .error f.error
  | none => answer

/-- A write: it may fail before or after it took effect. -/
def Choice.write {α : Type} (choice : Choice) (w : World)
    (outcome : Except GoError (α × Store)) : Except GoError α × World :=
  match outcome, choice.fault with
  | .ok (a, s), none => (.ok a, w.commit s)
  | .ok (_, s), some f => (.error f.error, if choice.lost then w.commit s else w)
  | .error _, some f => (.error f.error, w)
  | .error err, none => (.error err, w)

/-- A lookup that reports a missing object. -/
def found {α : Type} (resource : String) (key : NamespacedName) : Option α → Except GoError α
  | some a => .ok a
  | none => .error (notFoundError resource key.name)

/-- The labels carry all required pairs. -/
def carries (labels : Labels) (required : List (String × String)) : Bool :=
  required.all fun e => labels.lookup e.1 == some e.2

/-- Answer a call. -/
def exec : (c : Call) → Choice → World → c.Res × World
  | .getPeer key, ch, w =>
      -- the reconciled peer comes from a cache; what is read becomes the copy in hand
      match ch.read (found peerResource key ((w.seen ch.lag).peers.get key)) with
      | .ok p => (.ok p, w.hold key p)
      | .error err => (.error err, w)
  | .updatePeer obj, ch, w => ch.write w (w.store.updatePeer obj)
  | .patchPeer base modified, ch, w => ch.write w (w.store.patchPeer base modified)
  | .patchPeerStatus base modified, ch, w =>
      -- `updateStatus` carries a successful answer back into the copy in hand
      match ch.write w (w.store.patchPeerStatus base modified) with
      | (.ok p, w') => (.ok p, w'.hold p.metadata.key p)
      | (.error err, w') => (.error err, w')
  | .getNetwork key, ch, w => (ch.read (found networkResource key (w.store.networks.get key)), w)
  | .listPeers ns selector required, ch, w =>
      (ch.read (.ok ((w.store.peers.list ns ch.listOrder).filter fun p =>
        selector p.metadata.labels && carries p.metadata.labels required)), w)
  | .listPolicies ns, ch, w => (ch.read (.ok (w.store.policies.list ns ch.listOrder)), w)
  | .listEndpoints ns, ch, w => (ch.read (.ok (w.store.endpoints.list ns ch.listOrder)), w)
  | .createEndpoint ep, ch, w => ch.write w (w.store.createEndpoint ep)
  | .deleteEndpoint key, ch, w => ch.write w (w.store.deleteEndpoint key)
  | .getConfigMap key, ch, w => (ch.read (found "configmaps" key (w.store.configMaps.get key)), w)
  | .applyConfigMap cm, ch, w => ch.write w (w.store.applyConfigMap cm)
  | .setControllerReference, ch, w => (ch.read (.ok ()), w)
  | .generatePrivateKey, ch, w => (ch.read (.ok ch.key), w)
  | .now, ch, w => (ch.time, w)
  | .mapOrders, ch, w => (ch.orders, w)
  | .generateConfigVersion, _, w =>
      ("v" ++ Nat.repr (w.versionCounter + 1), { w with versionCounter := w.versionCounter + 1 })

/-! ## One program alone

Running a single program against a world, with a stream of choices for the calls
it makes. -/

/-- A world together with the choices still to come. -/
structure Session where
  world : World
  choices : ℕ → Choice := fun _ => {}

/-- Take the next choice. -/
def serve (c : Call) (s : Session) : c.Res × Session :=
  ((exec c (s.choices 0) s.world).1,
    { world := (exec c (s.choices 0) s.world).2, choices := fun n => s.choices (n + 1) })

/-! ## What a call can do

A read answers for the store or fails; a write commits its outcome or leaves the world
alone, and the answer does not say which. -/

variable {α : Type}

theorem Choice.read_of_faultless {choice : Choice} (h : choice.fault = none)
    (answer : Except GoError α) : choice.read answer = answer := by
  rw [Choice.read, h]

theorem Choice.read_eq_ok {choice : Choice} {answer : Except GoError α} {a : α}
    (h : choice.read answer = .ok a) : choice.fault = none ∧ answer = .ok a := by
  unfold Choice.read at h
  cases hfault : choice.fault with
  | none =>
    rw [hfault] at h
    exact ⟨rfl, h⟩
  | some f =>
    rw [hfault] at h
    cases h

theorem seen_mem (w : World) (lag : ℕ) : w.seen lag ∈ w.store :: w.past := by
  unfold World.seen
  cases h : (w.store :: w.past)[lag]? with
  | none => exact List.mem_cons_self
  | some s => exact List.mem_of_getElem? h

/-- A successful read returns a version that a read may return, and takes it as the copy. -/
theorem getPeer_ok {key : NamespacedName} {choice : Choice} {w : World} {p : LatticePeer}
    (h : (exec (.getPeer key) choice w).1 = .ok p) :
    (∃ s ∈ w.store :: w.past, s.peers.get key = some p) ∧
      (exec (.getPeer key) choice w).2 = w.hold key p := by
  rw [exec] at h ⊢
  cases hfault : choice.fault with
  | some f => simp [Choice.read, hfault] at h
  | none =>
    cases hget : (w.seen choice.lag).peers.get key with
    | none => simp [Choice.read, hfault, hget, found] at h
    | some p' =>
      simp only [Choice.read, hfault, hget, found, Except.ok.injEq] at h ⊢
      subst h
      exact ⟨⟨_, seen_mem w choice.lag, hget⟩, rfl⟩

theorem getPeer_error {key : NamespacedName} {choice : Choice} {w : World} {err : GoError}
    (h : (exec (.getPeer key) choice w).1 = .error err) :
    (exec (.getPeer key) choice w).2 = w := by
  rw [exec] at h ⊢
  split at h
  · cases h
  · rfl

/-- A failing or succeeding write leaves the world alone or commits its outcome. -/
theorem write_cases (choice : Choice) (w : World) (outcome : Except GoError (α × Store)) :
    (choice.write w outcome).2 = w ∨
      ∃ a s, outcome = .ok (a, s) ∧ (choice.write w outcome).2 = w.commit s := by
  cases outcome with
  | error err => cases hf : choice.fault <;> exact .inl (by simp [Choice.write, hf])
  | ok r =>
    obtain ⟨a, s⟩ := r
    cases hf : choice.fault with
    | none => exact .inr ⟨a, s, rfl, by simp [Choice.write, hf]⟩
    | some f =>
      cases hl : choice.lost with
      | false => exact .inl (by simp [Choice.write, hf, hl])
      | true => exact .inr ⟨a, s, rfl, by simp [Choice.write, hf, hl]⟩

/-- A successful answer is that of the write. -/
theorem write_ok {choice : Choice} {w : World} {outcome : Except GoError (α × Store)} {a : α}
    (h : (choice.write w outcome).1 = .ok a) :
    ∃ s, outcome = .ok (a, s) ∧ (choice.write w outcome).2 = w.commit s := by
  cases outcome with
  | error err => cases hf : choice.fault <;> simp [Choice.write, hf] at h
  | ok r =>
    obtain ⟨b, s⟩ := r
    cases hf : choice.fault with
    | some f => simp [Choice.write, hf] at h
    | none =>
      simp only [Choice.write, hf, Except.ok.injEq] at h
      exact ⟨s, by rw [h], by simp [Choice.write, hf]⟩

/-- A status patch leaves the world alone, or commits the patched peer and possibly
takes the answer as the new copy. -/
theorem patchPeerStatus_cases (base modified : LatticePeer) (choice : Choice) (w : World) :
    (exec (.patchPeerStatus base modified) choice w).2 = w ∨
      ∃ current, w.store.peers.get modified.metadata.key = some current ∧
        current.metadata.key = modified.metadata.key ∧
        ∀ w', w' = w.commit { w.store with
          peers := w.store.peers.put (patchedPeerStatus base modified current) } →
        (exec (.patchPeerStatus base modified) choice w).2 = w' ∨
          (exec (.patchPeerStatus base modified) choice w).2 =
            w'.hold modified.metadata.key (patchedPeerStatus base modified current) := by
  rw [exec]
  split
  · rename_i p w' hwrite
    obtain ⟨s, hok, hcommit⟩ := write_ok (by rw [hwrite])
    obtain ⟨current, hget, hcurrent, rfl, rfl⟩ := Store.patchPeerStatus_eq_ok hok
    refine .inr ⟨current, hget, hcurrent, fun w'' hw'' => .inr ?_⟩
    rw [hwrite] at hcommit
    rw [hw'', ← hcommit, ← hcurrent]
    rfl
  · -- the answer is an error, and the patch may have been applied all the same
    rename_i err w' hwrite
    rcases write_cases choice w (w.store.patchPeerStatus base modified) with
      hsame | ⟨p, s, hok, hcommit⟩
    · rw [hwrite] at hsame
      exact .inl hsame
    · obtain ⟨current, hget, hcurrent, rfl, rfl⟩ := Store.patchPeerStatus_eq_ok hok
      rw [hwrite] at hcommit
      exact .inr ⟨current, hget, hcurrent, fun w'' hw'' => .inl (hcommit.trans hw''.symm)⟩

/-! ## The store after a call

Every call leaves the store as it was, or puts in place what is said here. -/

section StoreAfter

variable (choice : Choice) (w : World)

theorem store_write (outcome : Except GoError (α × Store)) :
    (choice.write w outcome).2.store = w.store ∨
      ∃ a, outcome = .ok (a, (choice.write w outcome).2.store) := by
  rcases write_cases choice w outcome with hsame | ⟨a, s, hok, hcommit⟩
  · exact .inl (by rw [hsame])
  · refine .inr ⟨a, ?_⟩
    rw [hcommit]
    exact hok

theorem store_patchPeerStatus (base modified : LatticePeer) :
    (exec (.patchPeerStatus base modified) choice w).2.store = w.store ∨
      ∃ current, w.store.peers.get modified.metadata.key = some current ∧
        current.metadata.key = modified.metadata.key ∧
        (exec (.patchPeerStatus base modified) choice w).2.store = { w.store with
          peers := w.store.peers.put (patchedPeerStatus base modified current) } := by
  rcases patchPeerStatus_cases base modified choice w with hsame | ⟨current, hget, hkey, hcases⟩
  · exact .inl (by rw [hsame])
  · refine .inr ⟨current, hget, hkey, ?_⟩
    -- whether the answer is kept or lost, the store is the same
    rcases hcases _ rfl with hcommit | hheld
    · rw [hcommit]
      rfl
    · rw [hheld]
      rfl

theorem store_patchPeer (base modified : LatticePeer) :
    (exec (.patchPeer base modified) choice w).2.store = w.store ∨
      ∃ current, w.store.peers.get modified.metadata.key = some current ∧
        current.metadata.key = modified.metadata.key ∧
        (exec (.patchPeer base modified) choice w).2.store = { w.store with
          peers := w.store.peers.put (patchedPeer base modified current) } := by
  rcases store_write choice w (w.store.patchPeer base modified) with hsame | ⟨p, hok⟩
  · exact .inl hsame
  · obtain ⟨current, hget, hkey, rfl, hstore⟩ := Store.patchPeer_eq_ok hok
    exact .inr ⟨current, hget, hkey, hstore⟩

theorem store_updatePeer (obj : LatticePeer) :
    (exec (.updatePeer obj) choice w).2.store = w.store ∨
      ∃ current, w.store.peers.get obj.metadata.key = some current ∧
        current.metadata.key = obj.metadata.key ∧
        ((exec (.updatePeer obj) choice w).2.store = { w.store with
            peers := w.store.peers.put (updatedPeer obj current) } ∨
          (exec (.updatePeer obj) choice w).2.store = { w.store with
            peers := w.store.peers.erase obj.metadata.key }) := by
  rcases store_write choice w (w.store.updatePeer obj) with hsame | ⟨⟨⟩, hok⟩
  · exact .inl hsame
  · obtain ⟨current, hget, hkey, hstore⟩ := Store.updatePeer_eq_ok hok
    refine .inr ⟨current, hget, hkey, hstore.imp_right fun herase => ?_⟩
    rw [← hkey]
    exact herase

theorem store_createEndpoint (ep : LatticeEndpoint) :
    (exec (.createEndpoint ep) choice w).2.store = w.store ∨
      (w.store.endpoints.get ep.metadata.key = none ∧
        (exec (.createEndpoint ep) choice w).2.store = { w.store with
          endpoints := w.store.endpoints.put ep }) := by
  rcases store_write choice w (w.store.createEndpoint ep) with hsame | ⟨⟨⟩, hok⟩
  · exact .inl hsame
  · exact .inr (Store.createEndpoint_eq_ok hok)

/-- An endpoint whose creation is answered was not there, and is. -/
theorem createEndpoint_ok {ep : LatticeEndpoint}
    (h : (exec (.createEndpoint ep) choice w).1 = .ok ()) :
    w.store.endpoints.get ep.metadata.key = none ∧
      (exec (.createEndpoint ep) choice w).2.store.endpoints.get ep.metadata.key = some ep := by
  obtain ⟨s, hok, hcommit⟩ := write_ok h
  obtain ⟨hfree, rfl⟩ := Store.createEndpoint_eq_ok hok
  rw [exec, hcommit]
  exact ⟨hfree, Table.get_put_self _ ep⟩

theorem store_deleteEndpoint (key : NamespacedName) :
    (exec (.deleteEndpoint key) choice w).2.store = w.store ∨
      (exec (.deleteEndpoint key) choice w).2.store = { w.store with
        endpoints := w.store.endpoints.erase key } := by
  rcases store_write choice w (w.store.deleteEndpoint key) with hsame | ⟨⟨⟩, hok⟩
  · exact .inl hsame
  · exact .inr (Store.deleteEndpoint_eq_ok hok)

theorem store_applyConfigMap (cm : ConfigMap) :
    (exec (.applyConfigMap cm) choice w).2.store = w.store ∨
      ∃ configMaps, (exec (.applyConfigMap cm) choice w).2.store =
        { w.store with configMaps := configMaps } := by
  rcases store_write choice w (w.store.applyConfigMap cm) with hsame | ⟨⟨⟩, hok⟩
  · exact .inl hsame
  · obtain ⟨stored, happly, -, -⟩ := Store.applyConfigMap_eq_ok w.store cm
    refine .inr ⟨w.store.configMaps.put stored, ?_⟩
    exact (congrArg Prod.snd (Except.ok.inj (happly.symm.trans hok))).symm

theorem store_getPeer (key : NamespacedName) :
    (exec (.getPeer key) choice w).2.store = w.store := by
  cases hread : (exec (.getPeer key) choice w).1 with
  | error err => rw [getPeer_error hread]
  | ok p =>
    rw [(getPeer_ok hread).2]
    rfl

end StoreAfter

/-! The stores that a read may see after a call. -/

theorem past_write (choice : Choice) (w : World) (outcome : Except GoError (α × Store)) :
    (choice.write w outcome).2.past = w.past ∨
      (choice.write w outcome).2.past = w.store :: w.past := by
  rcases write_cases choice w outcome with hsame | ⟨a, s, -, hcommit⟩
  · exact .inl (by rw [hsame])
  · exact .inr (by rw [hcommit]; rfl)

theorem past_exec (c : Call) (choice : Choice) (w : World) :
    (exec c choice w).2.past = w.past ∨ (exec c choice w).2.past = w.store :: w.past := by
  cases c with
  | getPeer key =>
    left
    cases hread : (exec (.getPeer key) choice w).1 with
    | error err => rw [getPeer_error hread]
    | ok p =>
      rw [(getPeer_ok hread).2]
      rfl
  | patchPeerStatus base modified =>
    rcases patchPeerStatus_cases base modified choice w with hsame | ⟨current, -, -, hcases⟩
    · exact .inl (by rw [hsame])
    · right
      rcases hcases _ rfl with hcommit | hheld
      · rw [hcommit]
        rfl
      · rw [hheld]
        rfl
  | updatePeer obj | patchPeer base modified | createEndpoint ep | deleteEndpoint key
  | applyConfigMap cm =>
    exact past_write choice w _
  | _ => exact .inl rfl

/-! Which parts of the store a call can change. -/

/-- Calls that write no peer. -/
def Call.LeavesPeers : Call → Prop
  | .updatePeer _ | .patchPeer _ _ | .patchPeerStatus _ _ => False
  | _ => True

theorem peers_exec {c : Call} (hc : c.LeavesPeers) (choice : Choice) (w : World) :
    (exec c choice w).2.store.peers = w.store.peers := by
  cases c with
  | updatePeer | patchPeer | patchPeerStatus => exact hc.elim
  | getPeer key => rw [store_getPeer]
  | createEndpoint ep =>
    rcases store_createEndpoint choice w ep with h | ⟨-, h⟩
    · rw [h]
    · rw [h]
  | deleteEndpoint key =>
    rcases store_deleteEndpoint choice w key with h | h
    · rw [h]
    · rw [h]
  | applyConfigMap cm =>
    rcases store_applyConfigMap choice w cm with h | ⟨configMaps, h⟩
    · rw [h]
    · rw [h]
  | _ => rfl

/-- Calls that write no endpoint. -/
def Call.LeavesEndpoints : Call → Prop
  | .createEndpoint _ | .deleteEndpoint _ => False
  | _ => True

/-- What a write of peers or configuration maps leaves alone. -/
theorem rest_exec {c : Call} (hc : c.LeavesEndpoints) (choice : Choice) (w : World) :
    (exec c choice w).2.store.endpoints = w.store.endpoints ∧
      (exec c choice w).2.store.networks = w.store.networks := by
  cases c with
  | createEndpoint | deleteEndpoint => exact hc.elim
  | getPeer key =>
    rw [store_getPeer]
    exact ⟨rfl, rfl⟩
  | updatePeer obj =>
    rcases store_updatePeer choice w obj with h | ⟨current, -, -, h | h⟩
    all_goals rw [h]; exact ⟨rfl, rfl⟩
  | patchPeer base modified =>
    rcases store_patchPeer choice w base modified with h | ⟨current, -, -, h⟩
    all_goals rw [h]; exact ⟨rfl, rfl⟩
  | patchPeerStatus base modified =>
    rcases store_patchPeerStatus choice w base modified with h | ⟨current, -, -, h⟩
    all_goals rw [h]; exact ⟨rfl, rfl⟩
  | applyConfigMap cm =>
    rcases store_applyConfigMap choice w cm with h | ⟨configMaps, h⟩
    all_goals rw [h]; exact ⟨rfl, rfl⟩
  | _ => exact ⟨rfl, rfl⟩

end Wireflow.Controller
