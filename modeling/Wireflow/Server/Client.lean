/-
# Calls of the management server

What the registration of nodes and the token controller ask of the API server, answered from
the world of the controllers. All reads go through a cache, so each may be as old as the choice
says.

The server writes peers by server-side apply, as the field manager
`lattice-controller-manager` and without force. `Managers` keeps which fields of a peer this
manager has applied and which are owned by others: a field that somebody else owns is not
overwritten with another value, and a field that is no longer applied goes away.
-/

import Wireflow.Controller.Client

namespace Wireflow.Server

open Semantics
open Wireflow.Api
open Wireflow.Controller (Choice World WireGuardKey found)

/-! ## Server-side apply -/

/-- The fields of a peer that the server applies. -/
inductive PeerField
  | network
  | appId
  | platform
  | interfaceName
  | privateKey
  | publicKey
  | peerId
  /-- The label `app.kubernetes.io/managed-by`. -/
  | managedBy
  deriving DecidableEq, Repr

namespace PeerField

def all : List PeerField :=
  [.network, .appId, .platform, .interfaceName, .privateKey, .publicKey, .peerId, .managedBy]

/-- A string that is left out of the object when it is empty. -/
def present (value : String) : Option String := if value = "" then none else some value

def managedByLabel : String := "app.kubernetes.io/managed-by"

/-- The value of a field, if the object has it. -/
def get : PeerField → LatticePeer → Option String
  | .network, p => p.spec.network
  | .appId, p => present p.spec.appId
  | .platform, p => present p.spec.platform
  | .interfaceName, p => present p.spec.interfaceName
  | .privateKey, p => present p.spec.privateKey
  | .publicKey, p => present p.spec.publicKey
  | .peerId, p => present p.spec.peerId
  | .managedBy, p => p.metadata.labels.lookup managedByLabel

/-- The object with another value in a field. -/
def set : PeerField → Option String → LatticePeer → LatticePeer
  | .network, v, p => { p with spec := { p.spec with network := v } }
  | .appId, v, p => { p with spec := { p.spec with appId := v.getD "" } }
  | .platform, v, p => { p with spec := { p.spec with platform := v.getD "" } }
  | .interfaceName, v, p => { p with spec := { p.spec with interfaceName := v.getD "" } }
  | .privateKey, v, p => { p with spec := { p.spec with privateKey := v.getD "" } }
  | .publicKey, v, p => { p with spec := { p.spec with publicKey := v.getD "" } }
  | .peerId, v, p => { p with spec := { p.spec with peerId := v.getD "" } }
  | .managedBy, v, p =>
      { p with
        metadata := { p.metadata with
          labels := match v with
            | some label => p.metadata.labels.insert managedByLabel label
            | none => p.metadata.labels.erase managedByLabel } }

end PeerField

/-- Who owns the fields of a peer. -/
structure Managers where
  /-- The fields that the server has applied. -/
  applied : List PeerField := []
  /-- The fields that others have written. -/
  foreign : List PeerField := []

/-- The fields that an object to be applied has. -/
def fieldsOf (obj : LatticePeer) : List PeerField :=
  PeerField.all.filter fun f => (f.get obj).isSome

/-- A field owned by somebody else would get another value. -/
def Conflicts (m : Managers) (obj current : LatticePeer) : Prop :=
  ∃ f ∈ fieldsOf obj, f ∈ m.foreign ∧ f.get obj ≠ f.get current

instance (m : Managers) (obj current : LatticePeer) : Decidable (Conflicts m obj current) :=
  inferInstanceAs (Decidable (∃ f ∈ fieldsOf obj, _))

/-- One field of an apply. -/
def applyField (m : Managers) (obj p : LatticePeer) (f : PeerField) : LatticePeer :=
  match f.get obj with
  | some v => f.set (some v) p
  | none => if f ∈ m.applied ∧ f ∉ m.foreign then f.set none p else p

/-- A peer after an apply. The status is a subresource and stays. -/
def appliedPeer (m : Managers) (obj current : LatticePeer) : LatticePeer :=
  let p := PeerField.all.foldl (applyField m obj) current
  { p with
    metadata := { p.metadata with
      generation := nextGeneration current p.spec
      resourceVersion := current.metadata.resourceVersion + 1 } }

def applyConflictError : GoError := { kind := .conflict, text := "Apply failed with conflicts" }

/-- Server-side apply of a peer, created if it is not there. -/
def applyPeer (s : Store) (m : Managers) (obj : LatticePeer) :
    Except GoError (LatticePeer × Store) :=
  match s.peers.get obj.metadata.key with
  | none =>
      let p := { obj with status := {} }
      .ok (p, { s with peers := s.peers.put p })
  | some current =>
      if Conflicts m obj current then .error applyConflictError
      else .ok (appliedPeer m obj current,
        { s with peers := s.peers.put (appliedPeer m obj current) })

/-! What an apply leaves: the fields of the object that is applied, and the other fields unless the
server had applied them before. -/

namespace PeerField

variable {f g : PeerField} {p obj : LatticePeer} {v : Option String} {value value' : String}

theorem present_empty : present "" = none := if_pos rfl

theorem present_injective : Function.Injective present := by
  intro a b h
  unfold present at h
  split_ifs at h with ha hb hb
  · rw [ha, hb]
  · exact Option.some.inj h

theorem present_present (h : present value = some value') : present value' = some value' := by
  unfold present at h ⊢
  split_ifs at h with hempty
  obtain rfl := Option.some.inj h
  exact if_neg hempty

theorem get_set_some (h : f.get obj = some value) : f.get (f.set (some value) p) = some value := by
  cases f with
  | network => rfl
  | managedBy => exact AList.lookup_insert _
  | _ => exact present_present h

theorem get_set_none : f.get (f.set none p) = none := by
  cases f with
  | network => rfl
  | managedBy => exact AList.lookup_erase _ _
  | _ => exact present_empty

theorem get_set_of_ne (h : g ≠ f) : g.get (f.set v p) = g.get p := by
  cases f <;> cases g <;> first | exact absurd rfl h | rfl

end PeerField

section Applied

variable {m : Managers} {obj p current : LatticePeer} {f g : PeerField}

theorem get_applyField :
    g.get (applyField m obj p f) =
      if g = f then (f.get obj).or (if f ∈ m.applied ∧ f ∉ m.foreign then none else f.get p)
      else g.get p := by
  unfold applyField
  by_cases h : g = f
  · subst h
    rw [if_pos rfl]
    cases hobj : g.get obj with
    | some value => exact PeerField.get_set_some hobj
    | none =>
      split_ifs with hremoved
      · exact PeerField.get_set_none
      · rfl
  · rw [if_neg h]
    cases f.get obj with
    | some value => exact PeerField.get_set_of_ne h
    | none =>
      split_ifs with hremoved
      · exact PeerField.get_set_of_ne h
      · rfl

theorem get_appliedPeer (m : Managers) (obj current : LatticePeer) (f : PeerField) :
    f.get (appliedPeer m obj current) =
      (f.get obj).or (if f ∈ m.applied ∧ f ∉ m.foreign then none else f.get current) := by
  have hfold : f.get (appliedPeer m obj current) =
      f.get (PeerField.all.foldl (applyField m obj) current) := by
    cases f <;> rfl
  rw [hfold]
  cases f <;> simp [PeerField.all, get_applyField]

/-- What no field is about stays. -/
theorem view_foldl_applyField {γ : Type} (view : LatticePeer → γ)
    (hset : ∀ (f : PeerField) v p, view (f.set v p) = view p) (fields : List PeerField)
    (current : LatticePeer) : view (fields.foldl (applyField m obj) current) = view current := by
  induction fields generalizing current with
  | nil => rfl
  | cons f rest ih =>
    rw [List.foldl_cons, ih]
    unfold applyField
    split
    · exact hset f _ current
    · split_ifs
      · exact hset f _ current
      · rfl

theorem status_appliedPeer : (appliedPeer m obj current).status = current.status :=
  view_foldl_applyField LatticePeer.status (fun f _ _ => by cases f <;> rfl) _ current

theorem key_appliedPeer : (appliedPeer m obj current).metadata.key = current.metadata.key :=
  view_foldl_applyField (fun p => p.metadata.key) (fun f _ _ => by cases f <;> rfl) _ current

theorem deletionTimestamp_appliedPeer :
    (appliedPeer m obj current).metadata.deletionTimestamp = current.metadata.deletionTimestamp :=
  view_foldl_applyField (fun p => p.metadata.deletionTimestamp)
    (fun f _ _ => by cases f <;> rfl) _ current

theorem applyPeer_eq_ok {s s' : Store} {node : LatticePeer}
    (hget : s.peers.get obj.metadata.key = some current)
    (h : applyPeer s m obj = .ok (node, s')) :
    ¬ Conflicts m obj current ∧
      s' = { s with peers := s.peers.put (appliedPeer m obj current) } := by
  rw [applyPeer, hget] at h
  dsimp only at h
  split_ifs at h with hconflict
  exact ⟨hconflict, (congrArg Prod.snd (Except.ok.inj h)).symm⟩

end Applied

/-! ## Calls -/

/-- The fields by which tokens are indexed. -/
inductive TokenIndex
  | statusToken
  | specToken
  deriving DecidableEq, Repr

def TokenIndex.value : TokenIndex → LatticeEnrollmentToken → String
  | .statusToken, t => t.status.token
  | .specToken, t => t.spec.token

/-- The index has no entry for an empty value. -/
def TokenIndex.selects (index : TokenIndex) (value : String) (t : LatticeEnrollmentToken) : Bool :=
  index.value t ≠ "" && index.value t = value

inductive ServerCall
  /-- Tokens of all namespaces, by index. -/
  | listTokens (index : TokenIndex) (value : String)
  | getToken (key : NamespacedName)
  | updateTokenStatus (obj : LatticeEnrollmentToken)
  | patchTokenStatus (base modified : LatticeEnrollmentToken)
  | getPeer (key : NamespacedName)
  | applyPeer (obj : LatticePeer)
  | getConfigMap (key : NamespacedName)
  | generatePrivateKey
  | now

/-- The answer to a call. -/
@[reducible] def ServerCall.Res : ServerCall → Type
  | .listTokens _ _ => Except GoError (List LatticeEnrollmentToken)
  | .getToken _ => Except GoError LatticeEnrollmentToken
  | .updateTokenStatus _ => Except GoError Unit
  | .patchTokenStatus _ _ => Except GoError Unit
  | .getPeer _ => Except GoError LatticePeer
  | .applyPeer _ => Except GoError LatticePeer
  | .getConfigMap _ => Except GoError ConfigMap
  | .generatePrivateKey => Except GoError WireGuardKey
  | .now => ℕ

/-- A program of the server. -/
abbrev ServerProg (α : Type) := Program ServerCall ServerCall.Res α

/-- Issue one call. -/
def ServerCall.issue (c : ServerCall) : ServerProg c.Res := Program.perform c

/-- The world, and who owns the fields of peers. -/
structure Site where
  world : World := {}
  managers : NamespacedName → Managers := fun _ => {}

/-- The tokens that an index finds. -/
def tokensBy (s : Store) (order : Go.Order) (index : TokenIndex) (value : String) :
    List LatticeEnrollmentToken :=
  (s.tokens.listAll order).filter (index.selects value)

/-- The owners after an apply that may have taken effect. -/
def Site.ownersAfter (site : Site) (ch : Choice) (obj : LatticePeer) : NamespacedName → Managers :=
  let m := site.managers obj.metadata.key
  match applyPeer site.world.store m obj with
  | .error _ => site.managers
  | .ok _ =>
      if ch.fault.isNone || ch.lost then
        Function.update site.managers obj.metadata.key { m with applied := fieldsOf obj }
      else site.managers

/-- Answer a call. -/
def execServer : (c : ServerCall) → Choice → Site → c.Res × Site
  | .listTokens index value, ch, site =>
      (ch.read (.ok (tokensBy (site.world.seen ch.lag) ch.listOrder index value)), site)
  | .getToken key, ch, site =>
      (ch.read (found tokenResource key ((site.world.seen ch.lag).tokens.get key)), site)
  | .updateTokenStatus obj, ch, site =>
      let r := ch.write site.world (site.world.store.updateTokenStatus obj)
      (r.1, { site with world := r.2 })
  | .patchTokenStatus base modified, ch, site =>
      let r := ch.write site.world (site.world.store.patchTokenStatus base modified)
      (r.1, { site with world := r.2 })
  | .getPeer key, ch, site =>
      (ch.read (found peerResource key ((site.world.seen ch.lag).peers.get key)), site)
  | .applyPeer obj, ch, site =>
      let r := ch.write site.world
        (applyPeer site.world.store (site.managers obj.metadata.key) obj)
      (r.1, { world := r.2, managers := site.ownersAfter ch obj })
  | .getConfigMap key, ch, site =>
      (ch.read (found "configmaps" key ((site.world.seen ch.lag).configMaps.get key)), site)
  | .generatePrivateKey, ch, site => (ch.read (.ok ch.key), site)
  | .now, ch, site => (ch.time, site)

/-! ## One program alone -/

/-- A site together with the choices still to come. -/
structure Visit where
  site : Site
  choices : ℕ → Choice := fun _ => {}

/-- Take the next choice. -/
def visit (c : ServerCall) (v : Visit) : c.Res × Visit :=
  ((execServer c (v.choices 0) v.site).1,
    { site := (execServer c (v.choices 0) v.site).2, choices := fun n => v.choices (n + 1) })

end Wireflow.Server
