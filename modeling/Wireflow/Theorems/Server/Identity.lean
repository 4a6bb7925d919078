/-
# Peers that register again

A peer that exists should keep its keys, its id and its network when a node registers again under
its name, and its address as well. `Register` applies a whole new object, though: with the default
network, and with a new key if the cache does not show the peer. As all of this was applied by the
server before, nothing stops it, unless somebody else owns a field that would change.

`Repeatable` says when no registration does harm, and `keeps_iff` that this is the only way to be
safe.
-/

import Wireflow.Server.Enrollment
import Wireflow.Theorems.SpecKept

namespace Wireflow.Server

open Semantics Program Controller List
open Wireflow.Api
open Wireflow.Controller (Call Choice World WireGuardKey exec reconcile SamePlace)

/-! ## The notions -/

/-- What a peer should keep: it is there, with its keys, its id and its network; and if it is in
that network, with its address. -/
def Keeps (p : LatticePeer) (key : NamespacedName) (s : Store) : Prop :=
  ∃ q, s.peers.get key = some q ∧ q.spec.privateKey = p.spec.privateKey ∧
    q.spec.publicKey = p.spec.publicKey ∧ q.spec.peerId = p.spec.peerId ∧
    q.spec.network = p.spec.network ∧
    (p.status.activeNetwork = p.spec.network →
      q.status.allocatedAddress = p.status.allocatedAddress)

def identityFields : List PeerField := [.privateKey, .publicKey, .peerId, .network]

def SameIdentity (p q : LatticePeer) : Prop := ∀ f ∈ identityFields, f.get p = f.get q

/-- The keys that `Register` may take when it sees a version of the peer, or none. -/
def Obtainable (keys : KeyReader) : Option LatticePeer → WireGuardKey → Prop
  | some q, k => keys.parseKey q.spec.privateKey = .ok k
  | none, k => keys.Genuine k

/-- Applying the object fails, or changes nothing of the identity. -/
def Harmless (m : Managers) (p obj : LatticePeer) : Prop :=
  Conflicts m obj p ∨ SameIdentity obj p

/-- Whatever the server may see, registering with a key that it may take from there is harmless. -/
def Repeatable (keys : KeyReader) (site : Site) (key : NamespacedName) (p : LatticePeer) : Prop :=
  ∀ s ∈ site.world.store :: site.world.past, ∀ k, Obtainable keys (s.peers.get key) k →
    ∀ e : PeerDto, e.appId = key.name →
      Harmless (site.managers key) p (newPeer key.ns e k)

section

variable {p q obj : LatticePeer} {m m' : Managers} {f : PeerField}

theorem sameIdentity_iff : SameIdentity q p ↔
    q.spec.privateKey = p.spec.privateKey ∧ q.spec.publicKey = p.spec.publicKey ∧
      q.spec.peerId = p.spec.peerId ∧ q.spec.network = p.spec.network := by
  simp only [SameIdentity, identityFields, forall_mem_cons, not_mem_nil, false_implies,
    implies_true, and_true, PeerField.get, PeerField.present_injective.eq_iff]

/-! ## Versions of the peer -/

/-- A version that has what the peer should keep, and the fields of other owners. -/
structure Like (m : Managers) (p q : LatticePeer) : Prop where
  identity : SameIdentity q p
  foreign : ∀ f ∈ m.foreign, f.get q = f.get p
  alive : q.metadata.deletionTimestamp = none
  place : p.status.activeNetwork = p.spec.network → SamePlace p.status q.status

theorem Like.refl (h : p.metadata.deletionTimestamp = none) : Like m p p :=
  ⟨fun _ _ => rfl, fun _ _ => rfl, h, fun _ => ⟨rfl, rfl⟩⟩

theorem Like.privateKey (h : Like m p q) : q.spec.privateKey = p.spec.privateKey :=
  (sameIdentity_iff.mp h.identity).1

/-- The version is in its network if the peer is. -/
theorem Like.member (h : Like m p q) (hmember : p.status.activeNetwork = p.spec.network) :
    q.status.activeNetwork = q.spec.network := by
  rw [(h.place hmember).1, hmember, (sameIdentity_iff.mp h.identity).2.2.2]

/-- What the reconciler looks at besides does not matter. -/
theorem Like.of_get {q' : LatticePeer} (h : Like m p q)
    (hget : ∀ f : PeerField, f.get q' = f.get q)
    (halive : q'.metadata.deletionTimestamp = q.metadata.deletionTimestamp)
    (hplace : p.status.activeNetwork = p.spec.network → SamePlace q.status q'.status) :
    Like m p q' where
  identity f hf := (hget f).trans (h.identity f hf)
  foreign f hf := (hget f).trans (h.foreign f hf)
  alive := halive.trans h.alive
  place hmember := by
    have hsame := hplace hmember
    have hold := h.place hmember
    exact ⟨hsame.1.trans hold.1, hsame.2.trans hold.2⟩

/-- A conflict is about fields of other owners only. -/
theorem conflicts_congr (hm : m'.foreign = m.foreign) (h : Like m p q) :
    Conflicts m' obj q ↔ Conflicts m obj p := by
  unfold Conflicts
  rw [hm]
  refine exists_congr fun f => and_congr_right fun _ => and_congr_right fun hf => ?_
  rw [h.foreign f hf]

/-- An object that agrees in the identity is applied without a conflict. -/
theorem Like.applied (h : Like m p q) (hm : m'.foreign = m.foreign)
    (hconflict : ¬ Conflicts m' obj q) (hobj : SameIdentity obj p) :
    Like m p (appliedPeer m' obj q) where
  identity f hf := by
    rw [get_appliedPeer, hobj f hf, h.identity f hf]
    cases hget : f.get p with
    | some value => rfl
    | none => exact ite_self _
  foreign f hf := by
    rw [get_appliedPeer, if_neg fun hremoved => hremoved.2 (hm ▸ hf)]
    cases hget : f.get obj with
    | none => exact h.foreign f hf
    | some value =>
      -- somebody else owns the field, so that it has this value already
      have hsame : f.get obj = f.get q := by
        by_contra hne
        refine hconflict ⟨f, ?_, hm ▸ hf, hne⟩
        refine mem_filter.mpr ⟨?_, by rw [hget]; rfl⟩
        cases f <;> decide
      rw [← h.foreign f hf, ← hsame, hget]
      rfl
  alive := deletionTimestamp_appliedPeer.trans h.alive
  place hmember := by
    rw [status_appliedPeer]
    exact h.place hmember

end

theorem get_finalizers {q : LatticePeer} {finalizers : List String} (f : PeerField) :
    f.get { q with metadata := { q.metadata with finalizers := finalizers } } = f.get q := by
  cases f <;> rfl

/-! ## What the parties do

The peer, its key and the owners at the start are fixed. -/

variable (lib : SelectorLibrary)

section Parties

variable {keys : KeyReader} {key : NamespacedName} {m : Managers} {p : LatticePeer}

/-- Registering with a key does no harm. -/
def HarmlessKey (key : NamespacedName) (m : Managers) (p : LatticePeer) (k : WireGuardKey) : Prop :=
  ∀ e : PeerDto, e.appId = key.name → Harmless m p (newPeer key.ns e k)

/-- What the parties count on. -/
def Answered (keys : KeyReader) (key : NamespacedName) (m : Managers) (p : LatticePeer) :
    (c : JointCall) → JointCall.Res c → Prop
  | .inl (.getPeer name), r => name = key →
      (∀ q k, r = .ok q → keys.parseKey q.spec.privateKey = .ok k → HarmlessKey key m p k) ∧
        ∀ err k, r = .error err → err.kind = .notFound → keys.Genuine k → HarmlessKey key m p k
  | .inl .generatePrivateKey, r => ∀ k, r = .ok k → keys.Genuine k
  | .inr (.getPeer name), r => ∀ q, r = .ok q → name = key → q.metadata.key = key ∧ Like m p q
  | _, _ => True

/-- What the parties do to the peer. -/
def Permitted (key : NamespacedName) (m : Managers) (p : LatticePeer) : JointCall → Prop
  | .inl (.getPeer _) | .inl .generatePrivateKey => True
  | .inl (.applyPeer obj) => obj.metadata.key = key ∧ Harmless m p obj
  | .inl _ => False
  | .inr (.updatePeer obj) => obj.metadata.key = key ∧ SameIdentity obj p ∧
      ∀ f ∈ m.foreign, f.get obj = f.get p
  | .inr c => c.Preserves key (p.status.activeNetwork = p.spec.network)

theorem obeys_registerPeer (hkeys : keys.Lawful) {e : PeerDto} (he : e.appId = key.name) :
    (registerPeer keys key.ns e).Obeys (fun c => Answered keys key m p (.inl c))
      (fun c => Permitted key m p (.inl c)) fun _ => True := by
  have hname : (⟨key.ns, e.appId⟩ : NamespacedName) = key := by rw [he]
  have hkey : (registrationKey keys ⟨key.ns, e.appId⟩).Obeys
      (fun c => Answered keys key m p (.inl c)) (fun c => Permitted key m p (.inl c))
      fun r => ∀ k, r = .ok k → HarmlessKey key m p k := by
    refine ⟨trivial, fun r hr => ?_⟩
    obtain ⟨hfound, hmissing⟩ := hr hname
    cases r with
    | ok q => exact fun k hk => hfound q k rfl hk
    | error err =>
      dsimp only [Program.bind]
      split_ifs with hnotFound
      · exact ⟨trivial, fun r hr k hk => hmissing err k rfl hnotFound (hr k hk)⟩
      · exact fun k hk => absurd hk (hkeys.empty k)
  refine obeys_bind hkey fun r hr => ?_
  cases r with
  | error err => trivial
  | ok k =>
    refine ⟨⟨hname, hr k rfl e he⟩, fun answer _ => ?_⟩
    cases answer with
    | error err | ok node => trivial

theorem obeys_reconcile (hset : p.spec.privateKey ≠ "") :
    (reconcile lib key).Obeys (fun c => Answered keys key m p (.inr c))
      (fun c => Permitted key m p (.inr c)) fun _ => True := by
  refine ⟨trivial, fun r hr => ?_⟩
  cases r with
  | error err =>
    dsimp only [Program.bind]
    split_ifs <;> trivial
  | ok q =>
    obtain ⟨hkey, hlike⟩ := hr q rfl rfl
    have halive : ¬ q.metadata.deletionTimestamp.isSome = true := by simp [hlike.alive]
    have hset' : q.spec.privateKey ≠ "" := hlike.privateKey ▸ hset
    dsimp only [Program.bind]
    split_ifs with hfinalizer hshadow
    · trivial
    · have hphase : (handlePhase lib q key).Within
          (Call.Preserves key (p.status.activeNetwork = p.spec.network)) fun _ => True :=
        preserves_handlePhase hkey hset' hlike.member
      refine (hphase.mono (fun c hc => ?_) fun _ => id).obeys
      cases c with
      | updatePeer obj => exact hc.elim
      | _ => exact hc
    · -- the finalizer is added to the version that was read
      refine ⟨⟨hkey, fun f hf => ?_, fun f hf => ?_⟩, fun answer _ => ?_⟩
      · exact (get_finalizers f).trans (hlike.identity f hf)
      · exact (get_finalizers f).trans (hlike.foreign f hf)
      · cases answer <;> trivial

/-! ## What their calls leave -/

/-- All versions of the peer that the reconciler may see have what it should keep, and nobody else
has got or lost a field. -/
structure Undamaged (key : NamespacedName) (m : Managers) (p : LatticePeer) (site : Site) :
    Prop where
  versions : ∀ s ∈ site.world.store :: site.world.past,
    ∃ q, s.peers.get key = some q ∧ Like m p q
  owners : (site.managers key).foreign = m.foreign

variable {site site' : Site} {choice : Choice}

theorem Undamaged.current (h : Undamaged key m p site) :
    ∃ q, site.world.store.peers.get key = some q ∧ Like m p q :=
  h.versions _ mem_cons_self

/-- After a write one version more may be seen. -/
theorem Undamaged.next (h : Undamaged key m p site)
    (hpast : site'.world.past = site.world.past ∨
      site'.world.past = site.world.store :: site.world.past)
    (howners : (site'.managers key).foreign = (site.managers key).foreign)
    (hnew : ∃ q, site'.world.store.peers.get key = some q ∧ Like m p q) :
    Undamaged key m p site' := by
  refine ⟨fun s hs => ?_, howners.trans h.owners⟩
  rcases mem_cons.mp hs with rfl | hs
  · exact hnew
  · rcases hpast with hsame | hcommit
    · exact h.versions s (mem_cons_of_mem _ (hsame ▸ hs))
    · exact h.versions s (hcommit ▸ hs)

/-- A call of the reconciler that keeps the peer or puts a version like it in its place. -/
theorem Undamaged.exec (h : Undamaged key m p site) (c : Call)
    (hnew : ∃ q, (exec c choice site.world).2.store.peers.get key = some q ∧
      Like m p q) :
    Undamaged key m p { site with world := (exec c choice site.world).2 } :=
  h.next (past_exec c choice site.world) rfl hnew

theorem like_put {q q' : LatticePeer} {t : Table LatticePeer} (hget : t.get key = some q)
    (hkey : q'.metadata.key = q.metadata.key) (hlike : Like m p q') :
    ∃ q, (t.put q').get key = some q ∧ Like m p q := by
  have hkey' : key = q'.metadata.key := (hkey.trans (Table.key_of_get hget)).symm
  rw [hkey']
  exact ⟨q', Table.get_put_self t q', hlike⟩

section

variable (h : Undamaged key m p site)

include h

theorem undamaged_patchPeer {base modified : LatticePeer}
    (hc : (Call.patchPeer base modified).Preserves key
      (p.status.activeNetwork = p.spec.network)) :
    Undamaged key m p
      { site with world := (exec (.patchPeer base modified) choice site.world).2 } := by
  obtain ⟨q, hq, hlike⟩ := h.current
  obtain ⟨hkey, hspec, hlabels⟩ := hc
  apply h.exec
  rcases store_patchPeer choice site.world base modified with
    hsame | ⟨current, hget, -, hstore⟩
  · exact ⟨q, by rw [hsame]; exact hq, hlike⟩
  · rw [hkey] at hget
    obtain rfl := Option.some.inj (hget.symm.trans hq)
    rw [hstore]
    refine like_put hq rfl (hlike.of_get (fun f => ?_) rfl fun _ => ⟨rfl, rfl⟩)
    cases f with
    | managedBy => exact lookup_mergeLabels_of_eq (hlabels _ (by decide))
    | _ => simp only [PeerField.get, patchedPeer, mergeSpec, hspec, mergeField_self]

theorem undamaged_patchPeerStatus {base modified : LatticePeer}
    (hc : (Call.patchPeerStatus base modified).Preserves key
      (p.status.activeNetwork = p.spec.network)) :
    Undamaged key m p
      { site with world := (exec (.patchPeerStatus base modified) choice site.world).2 } := by
  obtain ⟨q, hq, hlike⟩ := h.current
  obtain ⟨hkey, hplace⟩ := hc
  apply h.exec
  rcases store_patchPeerStatus choice site.world base modified with
    hsame | ⟨current, hget, -, hstore⟩
  · exact ⟨q, by rw [hsame]; exact hq, hlike⟩
  · rw [hkey] at hget
    obtain rfl := Option.some.inj (hget.symm.trans hq)
    rw [hstore]
    refine like_put hq rfl (hlike.of_get (fun f => by cases f <;> rfl) rfl fun hmember => ?_)
    obtain ⟨hnetwork, haddress⟩ := hplace hmember
    constructor
    · exact if_pos hnetwork.symm
    · exact if_pos haddress.symm

theorem undamaged_updatePeer {obj : LatticePeer}
    (hkey : obj.metadata.key = key) (hidentity : SameIdentity obj p)
    (hforeign : ∀ f ∈ m.foreign, f.get obj = f.get p) :
    Undamaged key m p { site with world := (exec (.updatePeer obj) choice site.world).2 } := by
  obtain ⟨q, hq, hlike⟩ := h.current
  apply h.exec
  rcases store_write choice site.world (site.world.store.updatePeer obj) with
    hsame | ⟨⟨⟩, hok⟩
  · exact ⟨q, by rw [exec, hsame]; exact hq, hlike⟩
  · have hstore := Store.updatePeer_alive hok (hkey ▸ hq) hlike.alive
    have hget : ∀ f : PeerField, f.get (updatedPeer obj q) = f.get obj := fun f => by
      cases f <;> rfl
    rw [exec, hstore]
    exact like_put hq rfl
      { identity := fun f hf => (hget f).trans (hidentity f hf)
        foreign := fun f hf => (hget f).trans (hforeign f hf)
        alive := hlike.alive
        place := hlike.place }

/-- The reconciler leaves the peer as it should be. -/
theorem undamaged_reconciler {c : Call}
    (hc : Permitted key m p (.inr c)) :
    Undamaged key m p { site with world := (exec c choice site.world).2 } := by
  have hleaves : c.LeavesPeers →
      Undamaged key m p { site with world := (exec c choice site.world).2 } := by
    intro hc
    apply h.exec
    rw [peers_exec hc]
    exact h.current
  cases c with
  | updatePeer obj => exact undamaged_updatePeer h hc.1 hc.2.1 hc.2.2
  | patchPeer base modified => exact undamaged_patchPeer h hc
  | patchPeerStatus base modified => exact undamaged_patchPeerStatus h hc
  | _ => exact hleaves trivial

end

theorem foreign_ownersAfter (site : Site) (choice : Choice) (obj : LatticePeer)
    (key : NamespacedName) :
    (site.ownersAfter choice obj key).foreign = (site.managers key).foreign := by
  unfold Site.ownersAfter
  cases applyPeer site.world.store (site.managers obj.metadata.key) obj with
  | error err => rfl
  | ok r =>
    dsimp only
    split_ifs
    · by_cases hkey : key = obj.metadata.key
      · rw [hkey, Function.update_self]
      · rw [Function.update_of_ne hkey]
    · rfl

/-- And so does an apply that does no harm. -/
theorem undamaged_applyPeer (h : Undamaged key m p site) {obj : LatticePeer}
    (hkey : obj.metadata.key = key) (hobj : Harmless m p obj) :
    Undamaged key m p (execServer (.applyPeer obj) choice site).2 := by
  subst hkey
  obtain ⟨q, hq, hlike⟩ := h.current
  refine h.next (past_write choice site.world _) (foreign_ownersAfter ..) ?_
  rcases store_write choice site.world
      (applyPeer site.world.store (site.managers obj.metadata.key) obj) with
    hsame | ⟨node, hok⟩
  · exact ⟨q, by rw [execServer, hsame]; exact hq, hlike⟩
  · obtain ⟨hconflict, hstore⟩ := applyPeer_eq_ok hq hok
    have hidentity : SameIdentity obj p :=
      hobj.resolve_left fun hp => hconflict ((conflicts_congr h.owners hlike).mpr hp)
    rw [execServer, hstore]
    exact like_put hq key_appliedPeer (hlike.applied h.owners hconflict hidentity)

/-! ## What they are told -/

variable {older : List Store}

/-- The server sees a version like the peer, or an older store. -/
theorem answered_lookup (h : Undamaged key m p site)
    (hself : ∀ k, keys.parseKey p.spec.privateKey = .ok k → HarmlessKey key m p k)
    (holder : ∀ s ∈ older, ∀ k, Obtainable keys (s.peers.get key) k → HarmlessKey key m p k) :
    Answered keys key m p (.inl (.getPeer key))
      (execJoint older (.inl (.getPeer key)) choice site).1 := by
  have hseen : ∀ s ∈ site.world.store :: (site.world.past ++ older), ∀ k,
      Obtainable keys (s.peers.get key) k → HarmlessKey key m p k := by
    intro s hs k hk
    rw [← cons_append, mem_append] at hs
    rcases hs with hs | hs
    · obtain ⟨q, hq, hlike⟩ := h.versions s hs
      rw [hq] at hk
      exact hself k (hlike.privateKey ▸ hk)
    · exact holder s hs k hk
  have hstore := hseen _ (seen_mem (site.behind older).world choice.lag)
  intro _
  constructor
  · intro q k hok hk
    obtain ⟨-, hfound⟩ := Controller.Choice.read_eq_ok hok
    cases hget : ((site.behind older).world.seen choice.lag).peers.get key with
    | none => simp [hget, found] at hfound
    | some q' =>
      rw [hget] at hfound hstore
      obtain rfl := Except.ok.inj hfound
      exact hstore k hk
  · intro err k herror hkind hgenuine
    cases hget : ((site.behind older).world.seen choice.lag).peers.get key with
    | none =>
      rw [hget] at hstore
      exact hstore k hgenuine
    | some q =>
      -- the peer is there, so that the error is that of a request that failed
      change choice.read (found peerResource key
        (((site.behind older).world.seen choice.lag).peers.get key)) = .error err at herror
      rw [hget] at herror
      cases hfault : choice.fault with
      | none =>
        rw [Controller.Choice.read_of_faultless hfault] at herror
        cases herror
      | some fault =>
        simp only [Controller.Choice.read, hfault] at herror
        obtain rfl := Except.error.inj herror
        cases fault <;> cases hkind

/-- Every permitted call leaves the peer as it should be, and is answered as expected. -/
theorem undamaged_execJoint (h : Undamaged key m p site)
    (hself : ∀ k, keys.parseKey p.spec.privateKey = .ok k → HarmlessKey key m p k)
    (holder : ∀ s ∈ older, ∀ k, Obtainable keys (s.peers.get key) k → HarmlessKey key m p k)
    (hgenuine : keys.Genuine choice.key) {c : JointCall} (hc : Permitted key m p c) :
    Answered keys key m p c (execJoint older c choice site).1 ∧
      Undamaged key m p (execJoint older c choice site).2 := by
  cases c with
  | inl c =>
    cases c with
    | getPeer name =>
      refine ⟨fun hname => ?_, h⟩
      subst hname
      exact answered_lookup h hself holder rfl
    | generatePrivateKey =>
      refine ⟨fun k hk => ?_, h⟩
      obtain ⟨-, hkey⟩ := Controller.Choice.read_eq_ok hk
      exact Except.ok.inj hkey ▸ hgenuine
    | applyPeer obj => exact ⟨trivial, undamaged_applyPeer h hc.1 hc.2⟩
    | _ => exact hc.elim
  | inr c =>
    refine ⟨?_, undamaged_reconciler h hc⟩
    cases c with
    | getPeer name =>
      intro q hok hname
      subst hname
      obtain ⟨⟨s, hs, hget⟩, -⟩ := getPeer_ok hok
      obtain ⟨q', hq', hlike⟩ := h.versions s hs
      obtain rfl := Option.some.inj (hq'.symm.trans hget)
      exact ⟨Table.key_of_get hget, hlike⟩
    | _ => trivial

end Parties

/-! ## Runs -/

variable {k : WireGuardKey}

section Runs

variable {keys : KeyReader} {site : Site} {key : NamespacedName} {p : LatticePeer}

/-- When registering is harmless, the peer keeps everything. -/
theorem keeps_of_repeatable (hkeys : keys.Lawful)
    (hp : site.world.store.peers.get key = some p) (hset : p.spec.privateKey ≠ "")
    (halive : p.metadata.deletionTimestamp = none)
    (h : Repeatable keys site key p) {dto : ℕ → PeerDto} (hdto : ∀ i, (dto i).appId = key.name)
    {schedule : List (Action Joint Choice Empty)} (hgenuine : keys.GenuineAlong schedule) :
    Keeps p key (siteAfter keys lib key dto site schedule).world.store := by
  let m := site.managers key
  have hself : ∀ k, keys.parseKey p.spec.privateKey = .ok k → HarmlessKey key m p k :=
    fun k hk => h _ mem_cons_self k (by rw [hp]; exact hk)
  have holder : ∀ s ∈ site.world.past, ∀ k, Obtainable keys (s.peers.get key) k →
      HarmlessKey key m p k := fun s hs => h s (mem_cons_of_mem _ hs)
  have hstart : Undamaged key m p { site with world := { site.world with past := [] } } := by
    refine ⟨fun s hs => ?_, rfl⟩
    obtain rfl := mem_singleton.mp hs
    exact ⟨p, hp, .refl halive⟩
  have hend : Undamaged key m p (siteAfter keys lib key dto site schedule) := by
    refine Workers.invariant_of_obeys (A := Answered keys key m p) (P := Permitted key m p)
      (fun who => ?_) (fun c choice t hc hg ht => ?_) (fun e => nomatch e) hstart hgenuine
    · cases who with
      | inl i => exact obeys_inl (obeys_bind (obeys_registerPeer hkeys (hdto i)) fun _ _ => trivial)
      | inr _ => exact obeys_inr (obeys_bind (obeys_reconcile lib hset) fun _ _ => trivial)
    · exact undamaged_execJoint ht hself holder hg hc
  obtain ⟨q, hq, hlike⟩ := hend.current
  obtain ⟨hprivate, hpublic, hid, hnetwork⟩ := sameIdentity_iff.mp hlike.identity
  exact ⟨q, hq, hprivate, hpublic, hid, hnetwork, fun hmember => (hlike.place hmember).2⟩

theorem Obtainable.genuine {v : Option LatticePeer} (h : Obtainable keys v k) (hkeys : keys.Lawful)
    : keys.Genuine k := by
  cases v with
  | none => exact h
  | some q => exact hkeys.genuine _ k h

/-- What is applied with a genuine key has all fields of the identity. -/
theorem isSome_newPeer (hkeys : keys.Lawful) (hk : keys.Genuine k) (e : PeerDto) :
    ∀ f ∈ identityFields, (f.get (newPeer key.ns e k)).isSome := by
  have hprivate : k.privateKey ≠ "" := fun hempty => hkeys.empty k (hempty ▸ hk)
  have hpublic : k.publicKey ≠ "" := hkeys.publicKey _ k hk
  simp [identityFields, PeerField.get, PeerField.present, newPeer, hprivate, hpublic,
    Nat.repr_ne_empty]

/-- A registration alone: it reads a store, takes a key, and applies. -/
theorem exists_registration {s : Store}
    (hs : s ∈ site.world.store :: site.world.past) (hkeys : keys.Lawful)
    (hk : Obtainable keys (s.peers.get key) k) {e : PeerDto} (he : e.appId = key.name) :
    ∃ schedule, keys.GenuineAlong schedule ∧
      siteAfter keys lib key (fun _ => e) site schedule =
        (execServer (.applyPeer (newPeer key.ns e k)) { key := k }
          { site with world := { site.world with past := [] } }).2 := by
  obtain ⟨lag, hlag⟩ := mem_iff_getElem?.mp hs
  let start : Site := { site with world := { site.world with past := [] } }
  let looks : Choice := { lag := lag, key := k }
  let goes : Choice := { key := k }
  have hgenuine := hk.genuine hkeys
  have hread : (execServer (.getPeer ⟨key.ns, e.appId⟩) looks (start.behind site.world.past)).1 =
      found peerResource key (s.peers.get key) := by
    have hseen : (start.behind site.world.past).world.seen lag = s := by
      rw [World.seen, Site.behind, nil_append, hlag]
      rfl
    rw [execServer, hseen, he]
    rfl
  have hschedule : ∀ choices : List Choice, (∀ choice ∈ choices, choice.key = k) →
      keys.GenuineAlong (.start (.inl 0) :: choices.map (.advance (.inl 0))) := by
    intro choices hchoices who choice hmem
    rcases mem_cons.mp hmem with hstart | hmem
    · cases hstart
    · obtain ⟨choice', hchoice, heq⟩ := mem_map.mp hmem
      cases heq
      rw [hchoices _ hchoice]
      exact hgenuine
  have hgenerate : ∀ t : Site, execServer .generatePrivateKey goes t = (.ok k, t) := fun _ => rfl
  simp only [start] at hread
  cases hget : s.peers.get key with
  | some q =>
    have hparse : keys.parseKey q.spec.privateKey = .ok k := by
      rw [hget] at hk
      exact hk
    refine ⟨_, hschedule [looks, goes] (by simp [looks, goes]), ?_⟩
    rw [siteAfter, Workers.shared_solo]
    simp only [reregistration, registerPeer, registrationKey, ServerCall.issue, perform, call_bind,
      pure_eq_ret, ret_bind, inl, drive, drive_nil, execJoint, hread, hget, found,
      hparse, goes]
  | none =>
    refine ⟨_, hschedule [looks, goes, goes] (by simp [looks, goes]), ?_⟩
    rw [siteAfter, Workers.shared_solo]
    simp only [reregistration, registerPeer, registrationKey, ServerCall.issue, perform, call_bind,
      pure_eq_ret, ret_bind, inl, drive, drive_nil, execJoint, hread, hget, found,
      notFoundError, if_true, hgenerate, goes]

/-- What is applied without a conflict is stored. -/
theorem get_applied (site : Site) (choice : Choice) {m : Managers} {obj : LatticePeer}
    (hp : site.world.store.peers.get obj.metadata.key = some p)
    (hm : site.managers obj.metadata.key = m) (hconflict : ¬ Conflicts m obj p)
    (hfault : choice.fault = none) :
    (execServer (.applyPeer obj) choice site).2.world.store.peers.get obj.metadata.key =
      some (appliedPeer m obj p) := by
  have happly : applyPeer site.world.store m obj = .ok (appliedPeer m obj p,
      { site.world.store with
        peers := site.world.store.peers.put (appliedPeer m obj p) }) := by
    rw [applyPeer, hp]
    exact if_neg hconflict
  have hkey : obj.metadata.key = (appliedPeer m obj p).metadata.key :=
    (Table.key_of_get hp).symm.trans key_appliedPeer.symm
  have hworld : (execServer (.applyPeer obj) choice site).2.world.store =
      { site.world.store with
        peers := site.world.store.peers.put (appliedPeer m obj p) } := by
    simp only [execServer, hm, happly, Controller.Choice.write, hfault]
    rfl
  rw [hworld, hkey]
  exact Table.get_put_self ..

end Runs

/-- **Registering again.** Let a peer that exists have a key and not be on its way out. In all runs
of any number of registrations under its name and of its own reconciles, it keeps its keys, its id
and its network, and its address if it is in that network, if and only if no registration that may
follow from what the server sees does harm. -/
theorem keeps_iff (keys : KeyReader) (hkeys : keys.Lawful) (lib : SelectorLibrary) (site : Site)
    (key : NamespacedName) (p : LatticePeer) (hp : site.world.store.peers.get key = some p)
    (hset : p.spec.privateKey ≠ "") (halive : p.metadata.deletionTimestamp = none) :
    (∀ dto : ℕ → PeerDto, (∀ i, (dto i).appId = key.name) →
      ∀ schedule, keys.GenuineAlong schedule →
        Keeps p key (siteAfter keys lib key dto site schedule).world.store) ↔
      Repeatable keys site key p := by
  constructor
  · intro h s hs k hk e he
    refine or_iff_not_imp_left.mpr fun hconflict => ?_
    have hgenuine : keys.Genuine k := hk.genuine hkeys
    obtain ⟨schedule, hschedule, hsite⟩ := exists_registration lib hs hkeys hk he
    obtain ⟨q, hq, hprivate, hpublic, hid, hnetwork, -⟩ :=
      h (fun _ => e) (fun _ => he) schedule hschedule
    have hname : (newPeer key.ns e k).metadata.key = key := by
      change (⟨key.ns, e.appId⟩ : NamespacedName) = key
      rw [he]
    -- the run ends with what was applied
    have hstored := get_applied { site with world := { site.world with past := [] } }
      { key := k } (hname ▸ hp) rfl (hname.symm ▸ hconflict) rfl
    rw [hname, ← hsite, hq] at hstored
    obtain rfl := Option.some.inj hstored
    intro f hf
    obtain ⟨value, hvalue⟩ := Option.isSome_iff_exists.mp (isSome_newPeer hkeys hgenuine e f hf)
    have hkept := sameIdentity_iff.mpr ⟨hprivate, hpublic, hid, hnetwork⟩ f hf
    rw [get_appliedPeer, hvalue] at hkept
    rw [hvalue, ← hkept]
    rfl
  · intro h dto hdto schedule hgenuine
    exact keeps_of_repeatable lib hkeys hp hset halive h hdto hgenuine

namespace Returning

/-- Keys for the runs below. -/
def keys : KeyReader where
  parseKey text :=
    if text = "" then .error { text := "wgtypes: incorrect key size: 0" }
    else .ok { privateKey := text, publicKey := "public " ++ text, peerId := 7 }

theorem parseKey_eq_ok {text : String} (h : keys.parseKey text = .ok k) :
    text ≠ "" ∧ k = { privateKey := text, publicKey := "public " ++ text, peerId := 7 } := by
  change (if text = "" then _ else _) = _ at h
  split_ifs at h with hempty
  exact ⟨hempty, (Except.ok.inj h).symm⟩

theorem lawful_keys : keys.Lawful where
  empty _ h := (parseKey_eq_ok h).1 rfl
  genuine _ _ h := by
    obtain ⟨hne, rfl⟩ := parseKey_eq_ok h
    exact if_neg hne
  publicKey _ _ h := by
    obtain ⟨-, rfl⟩ := parseKey_eq_ok h
    simp

def key : NamespacedName := ⟨"d", "a"⟩

def peer (network : Option String) : LatticePeer :=
  { metadata := { ns := "d", name := "a" }
    spec :=
      { appId := "a", privateKey := "k", publicKey := "public k", peerId := "7"
        network := network }
    status :=
      { phase := .ready, activeNetwork := some defaultNet
        allocatedAddress := some "10.0.0.2" } }

def site (network : Option String) (past : List Store) : Site :=
  { world := { store := { peers := .ofList [peer network] }, past := past } }

def fresh : WireGuardKey := { privateKey := "k2", publicKey := "public k2", peerId := 7 }

/-- One registration, with a cache that is some writes behind. -/
def registration (lag : ℕ) : List (Action Joint Choice Empty) :=
  [.start (.inl 0), .advance (.inl 0) { lag := lag, key := fresh },
    .advance (.inl 0) { key := fresh }, .advance (.inl 0) { key := fresh }]

end Returning

open Returning in
/-- A peer in the default network, and a cache that shows it. -/
theorem keeps_in_default_net :
    Keeps (peer (some defaultNet)) key
      (siteAfter keys .matchLabelsOnly key (fun _ => { appId := "a", platform := "linux" })
        (site (some defaultNet) []) (registration 0)).world.store := by
  have hrepeatable : Repeatable keys (site (some defaultNet) []) key (peer (some defaultNet)) := by
    intro s hs k hk e he
    obtain rfl := mem_singleton.mp hs
    obtain ⟨-, rfl⟩ := parseKey_eq_ok hk
    have hid : Nat.repr 7 = "7" := by decide
    exact .inr (sameIdentity_iff.mpr ⟨rfl, rfl, hid, rfl⟩)
  refine (keeps_iff keys lawful_keys .matchLabelsOnly _ key _ rfl (by decide) rfl).mpr hrepeatable
    _ (fun _ => rfl) _ fun who choice hmem => ?_
  have hkey : choice.key = fresh := by
    simp only [registration, mem_cons, reduceCtorEq, Action.advance.injEq, not_mem_nil,
      or_false, false_or] at hmem
    rcases hmem with ⟨-, h⟩ | ⟨-, h⟩ | ⟨-, h⟩ <;> rw [h]
  rw [hkey]
  rfl

open Returning in
/-- **A second registration.** The cache of the server does not show the peer yet: the registration
gives it new keys. And a peer that has left its network, and still has its address, is put back into
the default network although the cache is up to date. -/
theorem registration_replaces :
    ((siteAfter keys .matchLabelsOnly key (fun _ => { appId := "a" })
        (site (some defaultNet) [{}]) (registration 1)).world.store.peers.get key).map
        (fun q => (q.spec.privateKey, q.spec.publicKey)) = some ("k2", "public k2") ∧
      ((siteAfter keys .matchLabelsOnly key (fun _ => { appId := "a" })
        (site none []) (registration 0)).world.store.peers.get key).map
        (fun q => (q.spec.network, q.status.allocatedAddress)) =
          some (some defaultNet, some "10.0.0.2") := by
  constructor <;> decide +kernel

end Wireflow.Server
