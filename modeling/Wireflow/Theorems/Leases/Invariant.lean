/-
# Leases and addresses on record

A lease is an endpoint; an address is *on record* for a peer when its status, a
version of it that a cached read may still return, or the copy its reconciler works
on carries it. The invariant relates the two: whoever has an address on record is
the owner of its lease, if there is one, and no two peers of a namespace have the
same address on record.

The invariant is kept by a reconciler relying on others to leave its own leases and
its own copy alone. Only one kind of step endangers it: creating the lease of an
address that another peer still has on record. `leaseContract` admits the runs in
which that does not happen.

Most calls are `Harmless`: they keep the invariant from any state. The remaining
ones are deleting a lease and recording a new address, which `Leases.Runs` treats
where they occur.
-/

import Wireflow.Controller.Cluster

namespace Wireflow.Controller

open Semantics List
open Wireflow.Api Table

/-- `peer.GetLabels()[LabelShadow] == "true"`. -/
def isShadow (p : LatticePeer) : Bool := p.metadata.labels.get labelShadow == "true"

/-- The endpoint that `ReleaseIP` deletes for an address. -/
def releaseName (address : String) : Option String :=
  if address = "" then none else (Go.Net.parseIP address).map leaseName

theorem releaseName_ipv4String (a : Go.Net.IPv4) :
    releaseName (Go.Net.ipv4String a) = some (leaseName (.v4 a)) := by
  have hparse := Go.Net.parseIP_ipv4String a
  have hne : Go.Net.ipv4String a ≠ "" := by
    intro hempty
    rw [hempty] at hparse
    cases hparse
  rw [releaseName, if_neg hne, hparse]
  rfl

/-! ## Addresses on record -/

/-- The addresses in the status of the peers of a store. -/
def statusAddresses (s : Store) : List (NamespacedName × String) :=
  s.peers.objects.pairs.filterMap fun e => e.2.status.allocatedAddress.map fun a => (e.1, a)

/-- Every address on record: in the status of a peer, in a version of it that a read
may still return, or in the copy that its reconciler works on. -/
def World.records (w : World) : List (NamespacedName × String) :=
  (w.store :: w.past).flatMap statusAddresses ++ w.held.pairs

/-- The address is on record for the peer `q`, which is not a shadow. -/
def OnRecord (shadow : NamespacedName → Bool) (w : World) (q : NamespacedName)
    (address : String) : Prop :=
  shadow q = false ∧ (q, address) ∈ w.records

variable {q : NamespacedName} {address : String} {s : Store}

theorem mem_statusAddresses :
    (q, address) ∈ statusAddresses s ↔
      ∃ p, s.peers.get q = some p ∧ p.status.allocatedAddress = some address := by
  simp only [statusAddresses, mem_filterMap, Option.map_eq_some_iff, Prod.mk.injEq]
  constructor
  · rintro ⟨⟨k, p⟩, hpair, a, haddr, rfl, rfl⟩
    exact ⟨p, Go.GoMap.mem_pairs.mp hpair, haddr⟩
  · rintro ⟨p, hget, haddr⟩
    exact ⟨(q, p), Go.GoMap.mem_pairs.mpr hget, address, haddr, rfl, rfl⟩

theorem onRecord_iff {shadow : NamespacedName → Bool} {w : World} :
    OnRecord shadow w q address ↔ shadow q = false ∧
      ((∃ s ∈ w.store :: w.past, ∃ p, s.peers.get q = some p ∧
        p.status.allocatedAddress = some address) ∨ w.heldBy q = some address) := by
  rw [OnRecord, World.records, mem_append, mem_flatMap, Go.GoMap.mem_pairs]
  simp only [mem_statusAddresses]
  rfl

/-! ## The invariant -/

/-- Leases and recorded addresses agree. -/
structure LeaseInv (shadow : NamespacedName → Bool) (w : World) : Prop where
  /-- Whoever has an address on record owns its lease. -/
  owner : ∀ k ep q address, w.store.endpoints.get k = some ep → OnRecord shadow w q address →
    q.ns = k.ns → releaseName address = some k.name → q.name = ep.peerRef
  /-- No two peers of a namespace have an address on record. -/
  unique : ∀ p q address, OnRecord shadow w p address → OnRecord shadow w q address →
    p.ns = q.ns → p = q
  /-- A lease is named after its address. -/
  named : ∀ k ep, w.store.endpoints.get k = some ep → releaseName ep.address = some k.name
  /-- Being a shadow does not change. -/
  label : ∀ s ∈ w.store :: w.past, ∀ q p, s.peers.get q = some p → isShadow p = shadow q

/-- The lease about to be created belongs to no address another peer has on record. -/
def LeaseIsFree (shadow : NamespacedName → Bool) (w : World) (i : NamespacedName)
    (ep : LatticeEndpoint) : Prop :=
  w.store.endpoints.get ep.metadata.key = none → ∀ r ∈ w.records, shadow r.1 = false →
    r.1.ns = i.ns → r.1 ≠ i → releaseName r.2 ≠ some ep.metadata.name

/-- Between two of its calls, a reconciler keeps its copy and its leases. -/
structure Undisturbed (i : NamespacedName) (w w' : World) : Prop where
  held : w'.heldBy i = w.heldBy i
  leases : ∀ k ep, w.store.endpoints.get k = some ep → k.ns = i.ns → ep.peerRef = i.name →
    w'.store.endpoints.get k = some ep

/-- A call of one reconciler leaves the copies and leases of the others. -/
structure LeavesOthers (i : NamespacedName) (w w' : World) : Prop where
  held : ∀ q, q ≠ i → w'.heldBy q = w.heldBy q
  leases : ∀ k ep, w.store.endpoints.get k = some ep → (k.ns ≠ i.ns ∨ ep.peerRef ≠ i.name) →
    w'.store.endpoints.get k = some ep

/-- Runs in which a lease is created only while nobody else has its address on record. -/
def leaseContract (shadow : NamespacedName → Bool) :
    Contract NamespacedName Call World Choice Disturbance where
  inv := LeaseInv shadow
  rely := Undisturbed
  guar := LeavesOthers
  admits i c _ w :=
    match c with
    | .createEndpoint ep => LeaseIsFree shadow w i ep
    | _ => True
  admitsEnv _ _ := True

instance (w : World) (i : NamespacedName) (ep : LatticeEndpoint)
    (shadow : NamespacedName → Bool) : Decidable (LeaseIsFree shadow w i ep) := by
  unfold LeaseIsFree
  infer_instance

instance (shadow : NamespacedName → Bool) (i : NamespacedName) (c : Call) (choice : Choice)
    (w : World) : Decidable ((leaseContract shadow).admits i c choice w) := by
  cases c <;> simp only [leaseContract] <;> infer_instance

instance (shadow : NamespacedName → Bool) (e : Disturbance) (w : World) :
    Decidable ((leaseContract shadow).admitsEnv e w) :=
  inferInstanceAs (Decidable True)

variable {shadow : NamespacedName → Bool} {w w' : World} {i : NamespacedName}

theorem Undisturbed.refl (i : NamespacedName) (w : World) : Undisturbed i w w :=
  ⟨rfl, fun _ _ h _ _ => h⟩

theorem LeavesOthers.refl (i : NamespacedName) (w : World) : LeavesOthers i w w :=
  ⟨fun _ _ => rfl, fun _ _ h _ => h⟩

theorem undisturbed_of_leavesOthers {j : NamespacedName} (hij : i ≠ j)
    (h : LeavesOthers i w w') : Undisturbed j w w' := by
  refine ⟨h.held j (Ne.symm hij), fun k ep hget hns hname => h.leases k ep hget ?_⟩
  by_contra hboth
  apply hij
  cases i
  cases j
  simp_all

/-- Fewer records and fewer leases keep the invariant. -/
theorem LeaseInv.of_subset (h : LeaseInv shadow w)
    (hrecord : ∀ q address, OnRecord shadow w' q address → OnRecord shadow w q address)
    (hlease : ∀ k ep, w'.store.endpoints.get k = some ep → w.store.endpoints.get k = some ep)
    (hlabel : ∀ s ∈ w'.store :: w'.past, ∀ q p, s.peers.get q = some p → isShadow p = shadow q) :
    LeaseInv shadow w' where
  owner k ep q address hget hrec hns hname :=
    h.owner k ep q address (hlease k ep hget) (hrecord q address hrec) hns hname
  unique p q address hp hq hns :=
    h.unique p q address (hrecord p address hp) (hrecord q address hq) hns
  named k ep hget := h.named k ep (hlease k ep hget)
  label := hlabel

/-! ## Commits -/

/-- What a write puts on record: what was there, and what the new store carries. -/
theorem onRecord_commit (h : OnRecord shadow (w.commit s) q address) :
    OnRecord shadow w q address ∨ (shadow q = false ∧ ∃ p, s.peers.get q = some p ∧
      p.status.allocatedAddress = some address) := by
  rw [onRecord_iff] at h ⊢
  obtain ⟨hq, ⟨s', hs', p, hget, haddr⟩ | hheld⟩ := h
  · rcases mem_cons.mp hs' with rfl | hold
    · exact .inr ⟨hq, p, hget, haddr⟩
    · exact .inl ⟨hq, .inl ⟨s', hold, p, hget, haddr⟩⟩
  · exact .inl ⟨hq, .inr hheld⟩

variable {p : LatticePeer}

/-- A peer of the current store has its address on record. -/
theorem onRecord_of_get (hq : shadow q = false) (hget : w.store.peers.get q = some p)
    (haddr : p.status.allocatedAddress = some address) : OnRecord shadow w q address :=
  onRecord_iff.mpr ⟨hq, .inl ⟨w.store, mem_cons_self, p, hget, haddr⟩⟩

/-- A write that records no new address, creates no lease and keeps shadow labels. -/
theorem LeaseInv.commit (h : LeaseInv shadow w)
    (hpeers : ∀ q p, s.peers.get q = some p → isShadow p = shadow q ∧
      ∀ address, shadow q = false → p.status.allocatedAddress = some address →
        OnRecord shadow w q address)
    (hlease : ∀ k ep, s.endpoints.get k = some ep → w.store.endpoints.get k = some ep) :
    LeaseInv shadow (w.commit s) := by
  refine h.of_subset (fun q address hrec => ?_) hlease fun s' hs' q p hget => ?_
  · rcases onRecord_commit hrec with hold | ⟨hq, p, hget, haddr⟩
    · exact hold
    · exact (hpeers q p hget).2 address hq haddr
  · rcases mem_cons.mp hs' with rfl | hold
    · exact (hpeers q p hget).1
    · exact h.label s' hold q p hget

/-- The peer holds the lease of the address. -/
def OwnsLease (w : World) (i : NamespacedName) (address : String) : Prop :=
  ∃ k ep, w.store.endpoints.get k = some ep ∧ k.ns = i.ns ∧ ep.peerRef = i.name ∧
    releaseName address = some k.name

/-- Whoever holds the lease of an address is the only one with the address on record. -/
theorem LeaseInv.eq_of_ownsLease (h : LeaseInv shadow w) (hown : OwnsLease w i address)
    (hrec : OnRecord shadow w q address) (hns : q.ns = i.ns) :
    q = i := by
  obtain ⟨k, ep, hget, hkns, hpeer, hname⟩ := hown
  have hq := h.owner k ep q address hget hrec (hns.trans hkns.symm) hname
  cases i
  cases q
  simp_all

/-- A write to one peer. Its address has to be on record already, or leased to it. -/
theorem LeaseInv.commit_peer (h : LeaseInv shadow w) (hkey : p.metadata.key = i)
    (hshadow : isShadow p = shadow i)
    (haddr : ∀ address, shadow i = false → p.status.allocatedAddress = some address →
      OnRecord shadow w i address ∨ OwnsLease w i address) :
    LeaseInv shadow (w.commit { w.store with peers := w.store.peers.put p }) := by
  -- a record after the write is an old one or leased to `i`
  have hrecord : ∀ q address, OnRecord shadow
      (w.commit { w.store with peers := w.store.peers.put p }) q address →
      OnRecord shadow w q address ∨ (q = i ∧ OwnsLease w i address) := by
    intro q address hrec
    rcases onRecord_commit hrec with hold | ⟨hq, p', hget, hp'⟩
    · exact .inl hold
    · rcases get_put_cases hget with ⟨rfl, rfl⟩ | ⟨-, hold⟩
      · obtain rfl : (HasMeta.metadata p').key = i := hkey
        exact (haddr address hq hp').imp_right fun hown => ⟨rfl, hown⟩
      · exact .inl (onRecord_of_get hq hold hp')
  refine ⟨fun k ep q address hget hrec hns hname => ?_, fun q q' address hq hq' hns => ?_,
    h.named, fun s hs q p' hget => ?_⟩
  · rcases hrecord q address hrec with hold | ⟨rfl, k', ep', hget', hns', hpeer, hname'⟩
    · exact h.owner k ep q address hget hold hns hname
    · -- the lease found is the one held
      obtain rfl : k = k' := by
        cases k
        cases k'
        simp_all
      have heq : ep' = ep := Option.some.inj (hget'.symm.trans hget)
      exact (heq ▸ hpeer).symm
  · rcases hrecord q address hq with hq | ⟨rfl, hown⟩
    · rcases hrecord q' address hq' with hq' | ⟨rfl, hown⟩
      · exact h.unique q q' address hq hq' hns
      · exact h.eq_of_ownsLease hown hq hns
    · rcases hrecord q' address hq' with hq' | ⟨rfl, -⟩
      · exact (h.eq_of_ownsLease hown hq' hns.symm).symm
      · rfl
  · rcases mem_cons.mp hs with rfl | hold
    · rcases get_put_cases hget with ⟨rfl, rfl⟩ | ⟨-, hold⟩
      · obtain rfl : (HasMeta.metadata p').key = i := hkey
        exact hshadow
      · exact h.label _ mem_cons_self q p' hold
    · exact h.label s hold q p' hget

/-! ## Harmless calls -/

/-- A step of `i` that keeps the invariant, the copies of others, and every lease. -/
structure Gentle (shadow : NamespacedName → Bool) (i : NamespacedName) (w w' : World) : Prop where
  inv : LeaseInv shadow w'
  held : ∀ q, q ≠ i → w'.heldBy q = w.heldBy q
  leases : ∀ k ep, w.store.endpoints.get k = some ep → w'.store.endpoints.get k = some ep

theorem Gentle.leavesOthers (h : Gentle shadow i w w') : LeavesOthers i w w' :=
  ⟨h.held, fun k ep hget _ => h.leases k ep hget⟩

theorem Gentle.refl (hinv : LeaseInv shadow w) : Gentle shadow i w w :=
  ⟨hinv, fun _ _ => rfl, fun _ _ hget => hget⟩

/-- Calls of the reconciler of `i` that are gentle from any state. -/
def Harmless (shadow : NamespacedName → Bool) (i : NamespacedName) : Call → Prop
  | .getPeer key => key = i
  | .updatePeer obj => obj.metadata.key = i ∧ isShadow obj = shadow i
  | .patchPeer base modified =>
      base.metadata.labels.lookup labelShadow = modified.metadata.labels.lookup labelShadow
  | .patchPeerStatus base modified => modified.metadata.key = i ∧
      (base.status.allocatedAddress = modified.status.allocatedAddress ∨
        modified.status.allocatedAddress = none)
  | .createEndpoint ep => ep.metadata.ns = i.ns ∧ ep.peerRef = i.name ∧
      releaseName ep.address = some ep.metadata.name
  | .deleteEndpoint _ => False
  | _ => True

theorem onRecord_hold {key q : NamespacedName} (h : OnRecord shadow (w.hold key p) q address) :
    OnRecord shadow w q address ∨
      (q = key ∧ shadow q = false ∧ p.status.allocatedAddress = some address) := by
  rw [onRecord_iff] at h ⊢
  obtain ⟨hq, hstore | hheld⟩ := h
  · exact .inl ⟨hq, .inl hstore⟩
  · by_cases hkey : q = key
    · subst hkey
      rw [World.heldBy_hold_self] at hheld
      exact .inr ⟨rfl, hq, hheld⟩
    · rw [World.heldBy_hold_ne hkey] at hheld
      exact .inl ⟨hq, .inr hheld⟩

/-- Taking a copy of a peer whose address is on record. -/
theorem Gentle.hold (h : Gentle shadow i w w')
    (hp : ∀ address, shadow i = false → p.status.allocatedAddress = some address →
      OnRecord shadow w' i address) : Gentle shadow i w (w'.hold i p) where
  inv := by
    refine h.inv.of_subset (fun q address hrec => ?_) (fun _ _ hget => hget) h.inv.label
    rcases onRecord_hold hrec with hold | ⟨rfl, hq, haddr⟩
    · exact hold
    · exact hp address hq haddr
  held q hq := (World.heldBy_hold_ne hq).trans (h.held q hq)
  leases := h.leases

section

variable (hinv : LeaseInv shadow w)

include hinv

theorem gentle_commit_peer (hkey : p.metadata.key = i)
    (hshadow : isShadow p = shadow i)
    (haddr : ∀ address, shadow i = false → p.status.allocatedAddress = some address →
      OnRecord shadow w i address ∨ OwnsLease w i address) :
    Gentle shadow i w (w.commit { w.store with peers := w.store.peers.put p }) :=
  ⟨hinv.commit_peer hkey hshadow haddr, fun _ _ => rfl, fun _ _ hget => hget⟩

/-- What the server has of a peer is on record and carries the right shadow label. -/
theorem LeaseInv.current (hget : w.store.peers.get q = some p) :
    isShadow p = shadow q ∧
      ∀ address, shadow q = false → p.status.allocatedAddress = some address →
        OnRecord shadow w q address :=
  ⟨hinv.label _ mem_cons_self q p hget, fun _ hq => onRecord_of_get hq hget⟩

theorem gentle_getPeer (choice : Choice) :
    Gentle shadow i w (exec (.getPeer i) choice w).2 := by
  cases hread : (exec (.getPeer i) choice w).1 with
  | error err =>
    rw [getPeer_error hread]
    exact .refl hinv
  | ok p =>
    obtain ⟨⟨s, hs, hget⟩, hheld⟩ := getPeer_ok hread
    rw [hheld]
    exact (Gentle.refl hinv).hold fun address hi haddr =>
      onRecord_iff.mpr ⟨hi, .inl ⟨s, hs, p, hget, haddr⟩⟩

theorem gentle_updatePeer {obj : LatticePeer} (choice : Choice)
    (hkey : obj.metadata.key = i) (hshadow : isShadow obj = shadow i) :
    Gentle shadow i w (exec (.updatePeer obj) choice w).2 := by
  subst hkey
  rcases write_cases choice w (w.store.updatePeer obj) with hsame | ⟨⟨⟩, s, hok, hcommit⟩
  · rw [exec, hsame]
    exact .refl hinv
  · rw [exec, hcommit]
    obtain ⟨current, hget, hcurrent, rfl | rfl⟩ := Store.updatePeer_eq_ok hok
    · refine gentle_commit_peer hinv hcurrent hshadow fun address hi haddr => ?_
      exact .inl ((hinv.current hget).2 address hi haddr)
    · -- marked for deletion and without finalizers: the peer is gone
      refine ⟨hinv.commit (fun q p hq => ?_) fun _ _ hget => hget, fun _ _ => rfl,
        fun _ _ hget => hget⟩
      by_cases hgone : q = (updatedPeer obj current).metadata.key
      · subst hgone
        rw [get_erase_self] at hq
        cases hq
      · rw [get_erase_ne hgone] at hq
        exact hinv.current hq

end

theorem isShadow_patchedPeer {base modified current : LatticePeer}
    (h : base.metadata.labels.lookup labelShadow = modified.metadata.labels.lookup labelShadow) :
    isShadow (patchedPeer base modified current) = isShadow current := by
  simp only [isShadow, Labels.get, patchedPeer, lookup_mergeLabels_of_eq h]

theorem gentle_patchPeer (hinv : LeaseInv shadow w) {base modified : LatticePeer}
    (choice : Choice) (hlabel : base.metadata.labels.lookup labelShadow =
      modified.metadata.labels.lookup labelShadow) :
    Gentle shadow i w (exec (.patchPeer base modified) choice w).2 := by
  rcases write_cases choice w (w.store.patchPeer base modified) with hsame | ⟨p, s, hok, hcommit⟩
  · rw [exec, hsame]
    exact .refl hinv
  · rw [exec, hcommit]
    obtain ⟨current, hget, hcurrent, rfl, rfl⟩ := Store.patchPeer_eq_ok hok
    obtain ⟨hshadow, haddr⟩ := hinv.current hget
    refine ⟨hinv.commit_peer hcurrent ?_ fun address hi hp => ?_, fun _ _ => rfl,
      fun _ _ hget => hget⟩
    · rw [isShadow_patchedPeer hlabel]
      exact hshadow
    · exact .inl (haddr address hi hp)

/-- A status patch is gentle when the address it writes, if any, is leased. -/
theorem gentle_patchPeerStatus (hinv : LeaseInv shadow w) {base modified : LatticePeer}
    (choice : Choice) (hkey : modified.metadata.key = i)
    (haddr : ∀ address, base.status.allocatedAddress ≠ modified.status.allocatedAddress →
      modified.status.allocatedAddress = some address → OwnsLease w i address) :
    Gentle shadow i w (exec (.patchPeerStatus base modified) choice w).2 := by
  subst hkey
  rcases patchPeerStatus_cases base modified choice w with hsame | ⟨current, hget, hkey, hcases⟩
  · rw [hsame]
    exact .refl hinv
  · obtain ⟨hshadow, honRecord⟩ := hinv.current hget
    have hgentle : Gentle shadow modified.metadata.key w (w.commit { w.store with
        peers := w.store.peers.put (patchedPeerStatus base modified current) }) := by
      refine gentle_commit_peer hinv hkey hshadow fun address hi hp => ?_
      -- an address the patch does not touch is on record, one that it writes is leased
      by_cases hsame : base.status.allocatedAddress = modified.status.allocatedAddress
      · refine .inl (honRecord address hi ?_)
        simpa [patchedPeerStatus, mergeStatus, hsame] using hp
      · refine .inr (haddr address hsame ?_)
        simpa [patchedPeerStatus, mergeStatus, mergeField, hsame] using hp
    rcases hcases _ rfl with hcommit | hheld
    · rw [hcommit]
      exact hgentle
    · rw [hheld]
      refine hgentle.hold fun address hi hp => onRecord_of_get hi ?_ hp
      rw [← hkey]
      exact get_put_self _ _

theorem gentle_createEndpoint (hinv : LeaseInv shadow w) {ep : LatticeEndpoint} (choice : Choice)
    (hns : ep.metadata.ns = i.ns) (hpeer : ep.peerRef = i.name)
    (hname : releaseName ep.address = some ep.metadata.name) (hfree : LeaseIsFree shadow w i ep) :
    Gentle shadow i w (exec (.createEndpoint ep) choice w).2 := by
  rcases write_cases choice w (w.store.createEndpoint ep) with hsame | ⟨⟨⟩, s, hok, hcommit⟩
  · rw [exec, hsame]
    exact .refl hinv
  · rw [exec, hcommit]
    obtain ⟨hnone, rfl⟩ := Store.createEndpoint_eq_ok hok
    -- an endpoint puts no address on record
    have hrecord : ∀ q address, OnRecord shadow
        (w.commit { w.store with endpoints := w.store.endpoints.put ep }) q address →
        OnRecord shadow w q address := by
      intro q address hrec
      rcases onRecord_commit hrec with hold | ⟨hq, p, hget, hp⟩
      · exact hold
      · exact onRecord_of_get hq hget hp
    refine ⟨⟨fun k ep' q address hget hrec hqns hrelease => ?_, fun p q address hp hq => ?_,
      fun k ep' hget => ?_, fun s hs q p hget => ?_⟩, fun _ _ => rfl, fun k ep' hget => ?_⟩
    · rcases get_put_cases hget with ⟨rfl, rfl⟩ | ⟨-, hold⟩
      · -- nobody but `i` may have the address of the new lease on record
        by_contra hne
        obtain ⟨hq, hmem⟩ := hrecord q address hrec
        refine hfree hnone (q, address) hmem hq (hqns.trans hns) ?_ hrelease
        rintro rfl
        exact hne hpeer.symm
      · exact hinv.owner k ep' q address hold (hrecord q address hrec) hqns hrelease
    · exact hinv.unique p q address (hrecord p address hp) (hrecord q address hq)
    · rcases get_put_cases hget with ⟨rfl, rfl⟩ | ⟨-, hold⟩
      · exact hname
      · exact hinv.named k ep' hold
    · rcases mem_cons.mp hs with rfl | hold
      · exact hinv.label _ mem_cons_self q p hget
      · exact hinv.label s hold q p hget
    · have hne : k ≠ ep.metadata.key := by
        rintro rfl
        rw [hnone] at hget
        cases hget
      exact (get_put_ne hne).trans hget

/-- **Harmless calls are gentle.** -/
theorem gentle_of_harmless {c : Call} (hc : Harmless shadow i c) (hinv : LeaseInv shadow w)
    (choice : Choice) (hadm : (leaseContract shadow).admits i c choice w) :
    Gentle shadow i w (exec c choice w).2 := by
  cases c with
  | getPeer key =>
    obtain rfl : key = i := hc
    exact gentle_getPeer hinv choice
  | updatePeer obj => exact gentle_updatePeer hinv choice hc.1 hc.2
  | patchPeer base modified => exact gentle_patchPeer hinv choice hc
  | patchPeerStatus base modified =>
    refine gentle_patchPeerStatus hinv choice hc.1 fun address hne hsome => ?_
    rcases hc.2 with hsame | hnone
    · exact absurd hsame hne
    · rw [hnone] at hsome
      cases hsome
  | createEndpoint ep => exact gentle_createEndpoint hinv choice hc.1 hc.2.1 hc.2.2 hadm
  | deleteEndpoint key => exact hc.elim
  | applyConfigMap cm =>
    rcases write_cases choice w (w.store.applyConfigMap cm) with hsame | ⟨⟨⟩, s, hok, hcommit⟩
    · rw [exec, hsame]
      exact .refl hinv
    · rw [exec, hcommit]
      cases hok
      exact ⟨hinv.commit (fun q p hget => hinv.current hget) fun _ _ hget => hget,
        fun _ _ => rfl, fun _ _ hget => hget⟩
  | generateConfigVersion =>
    exact ⟨hinv.of_subset (fun _ _ hrec => hrec) (fun _ _ hget => hget) hinv.label,
      fun _ _ => rfl, fun _ _ hget => hget⟩
  | _ => exact .refl hinv

end Wireflow.Controller
