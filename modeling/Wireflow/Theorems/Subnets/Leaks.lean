/-
# Leaked subnets

Every allocation should be the subnet of exactly one network, except while the reconcile that
created it is still at work, and no network should have had two (`Unleaked`).

Creating an allocation and recording it in the status of the network are two requests, and
nothing looks for an earlier allocation of the network. When the second request fails, the
next reconcile creates another allocation and the first is lost (`leaked_after_timeout`).

The property holds along every run in which an allocation is created only while its network
exists without a subnet, the answer to the creation is not lost, the patch that records it does
not fail, and a network is not deleted once it has a subnet or is about to get one
(`unleaked_along`).
-/

import Wireflow.Controller.NetworkReconciler
import Wireflow.Theorems.Subnets.Search

namespace Wireflow.Controller

open Go.Net Function Registry
open Semantics Program Contract
open Wireflow.Api Table

/-! ## The property -/

/-- The subnet of exactly one network, unless just created; at most one for each network. -/
structure Unleaked (r : Registry) : Prop where
  used : ∀ k x, r.world.store.allocations.get k = some x →
    (∀ i, r.pending i ≠ some x.metadata.name) →
    ∃! q, ∃ n, r.world.store.networks.get q = some n ∧ n.activeCIDR = x.cidr
  once : ∀ i, (r.created i).length ≤ 1

/-! ## The invariant -/

/-- An allocation as `AllocateSubnet` makes them, for some pool. -/
def NamedAfterAddress (x : LatticeSubnetAllocation) : Prop :=
  ∃ ip mask, x.metadata.key = ⟨"", subnetName ip⟩ ∧ x.cidr = prefixText ip mask

theorem NamedAfterAddress.key_of_cidr {x y : LatticeSubnetAllocation} (hx : NamedAfterAddress x)
    (hy : NamedAfterAddress y) (h : x.cidr = y.cidr) : x.metadata.key = y.metadata.key := by
  obtain ⟨ip, mask, hkey, hcidr⟩ := hx
  obtain ⟨ip', mask', hkey', hcidr'⟩ := hy
  rw [hcidr, hcidr'] at h
  rw [hkey, hkey', subnetName, subnetName, ipToHex, ipToHex, to4_of_prefixText h]

variable {x : LatticeSubnetAllocation}

theorem NamedAfterAddress.key_eq (hx : NamedAfterAddress x) :
    x.metadata.key = ⟨"", x.metadata.name⟩ := by
  obtain ⟨ip, mask, hkey, -⟩ := hx
  have hparts := hkey
  rw [ObjectMeta.key, NamespacedName.mk.injEq] at hparts
  rw [hkey, hparts.2]

theorem NamedAfterAddress.cidr_ne (hx : NamedAfterAddress x) :
    x.cidr ≠ "" := by
  obtain ⟨ip, mask, -, hcidr⟩ := hx
  intro hempty
  have hmem : '/' ∈ x.cidr.toList := by
    rw [hcidr]
    simp [prefixText, String.toList_append]
  simp [hempty] at hmem

/-- The network has recorded the allocation of the given name. -/
def Recorded (s : Store) (i : NamespacedName) (name : String) : Prop :=
  ∃ x n, s.allocations.get ⟨"", name⟩ = some x ∧ s.networks.get i = some n ∧
    n.activeCIDR = x.cidr

/-- The network exists and has no subnet. -/
def Unassigned (s : Store) (i : NamespacedName) : Prop :=
  ∃ n, s.networks.get i = some n ∧ n.activeCIDR = ""

/-- What all reconcilers keep together. -/
structure Tidy (r : Registry) : Prop where
  named : ∀ k x, r.world.store.allocations.get k = some x → NamedAfterAddress x
  /-- Every allocation was created for some network. -/
  owner : ∀ k x, r.world.store.allocations.get k = some x → ∃ i, x.metadata.name ∈ r.created i
  once : ∀ i, (r.created i).length ≤ 1
  /-- What was created is there, and recorded or about to be. -/
  state : ∀ i name, name ∈ r.created i →
    (∃ x, r.world.store.allocations.get ⟨"", name⟩ = some x) ∧
      ((r.pending i = some name ∧ Unassigned r.world.store i) ∨ Recorded r.world.store i name)
  /-- A network for which nothing was created has no subnet. -/
  blank : ∀ i n, r.world.store.networks.get i = some n → r.created i = [] → n.activeCIDR = ""
  /-- An allocation was created for one network only. -/
  single : ∀ i j name, name ∈ r.created i → name ∈ r.created j → i = j

variable {i j : NamespacedName} {r r' : Registry}

variable {name : String}

theorem mem_created (h : Tidy r) (hmem : name ∈ r.created i) :
    r.created i = [name] := by
  have hlen := h.once i
  cases hc : r.created i with
  | nil =>
    rw [hc] at hmem
    cases hmem
  | cons a rest =>
    rw [hc] at hlen hmem
    cases rest with
    | nil => rw [List.mem_singleton.mp hmem]
    | cons b rest => simp at hlen

/-- Of one allocation's text there is one recorder. -/
theorem Tidy.unleaked (h : Tidy r) : Unleaked r := by
  refine ⟨fun k x hx hsettled => ?_, h.once⟩
  obtain ⟨i, hi⟩ := h.owner k x hx
  obtain ⟨x', n, hx', hn, hcidr⟩ := (h.state i _ hi).2.resolve_left fun hp => hsettled i hp.1
  have hkey : k = ⟨"", x.metadata.name⟩ :=
    (key_of_get hx).symm.trans (h.named k x hx).key_eq
  have hsame : x' = x := by
    rw [← hkey, hx] at hx'
    exact (Option.some.inj hx').symm
  subst hsame
  refine ⟨i, ⟨n, hn, hcidr⟩, fun q hq => ?_⟩
  -- a network with this subnet has had an allocation created, and it is this one
  obtain ⟨n', hn', hcidr'⟩ := hq
  have hne : n'.activeCIDR ≠ "" := by
    rw [hcidr']
    exact (h.named k x' hx).cidr_ne
  obtain ⟨name, hmem⟩ :=
    List.exists_mem_of_ne_nil _ fun hnil => hne (h.blank q n' hn' hnil)
  rcases (h.state q name hmem).2 with ⟨-, n'', hn'', hempty⟩ | ⟨y, n'', hy, hn'', hrec⟩
  · rw [hn'] at hn''
    cases hn''
    exact absurd hempty hne
  · rw [hn'] at hn''
    cases hn''
    have hsameKey : y.metadata.key = x'.metadata.key :=
      (h.named _ y hy).key_of_cidr (h.named k x' hx) (hrec.symm.trans hcidr')
    have hname : name = x'.metadata.name := by
      have hy' : y.metadata.key = ⟨"", name⟩ := key_of_get hy
      have hx'' : x'.metadata.key = k := key_of_get hx
      rw [hy', hx'', hkey, NamespacedName.mk.injEq] at hsameKey
      exact hsameKey.2
    subst hname
    exact h.single q i _ hmem hi

/-! ## The runs under consideration -/

/-- What the reconciler of `i` relies on. -/
structure LeftAlone (i : NamespacedName) (r r' : Registry) : Prop where
  pending : r'.pending i = r.pending i
  created : r'.created i = r.created i
  grows : ∀ k x, r.world.store.allocations.get k = some x →
    r'.world.store.allocations.get k = some x
  /-- A network with an allocation in the making is left alone. -/
  network : r.pending i ≠ none → ∀ n, r.world.store.networks.get i = some n →
    ∃ n', r'.world.store.networks.get i = some n' ∧ n'.activeCIDR = n.activeCIDR

instance (s : Store) (i : NamespacedName) : Decidable (Unassigned s i) :=
  match h : s.networks.get i with
  | none => .isFalse fun ⟨n, hn, _⟩ => by simp [h] at hn
  | some n => decidable_of_iff (n.activeCIDR = "")
      ⟨fun hempty => ⟨n, h, hempty⟩, fun ⟨n', hn', hempty⟩ => by
        rw [h] at hn'
        cases hn'
        exact hempty⟩

/-- What is required of a call of the reconciler of `i`. -/
def Careful (i : NamespacedName) (choice : Choice) (r : Registry) : NetworkCall → Prop
  | .createAllocation _ =>
      Unassigned r.world.store i ∧ (choice.fault = none ∨ choice.lost = false)
  | .patchNetworkStatus base modified =>
      base.activeCIDR = modified.activeCIDR ∨ choice.fault = none
  | _ => True

/-- What is required of a happening. -/
def SparesSubnets (r : Registry) : NetworkHappening → Prop
  | .createNetwork _ => True
  | .deleteNetwork key =>
      r.pending key = none ∧ ∀ n ∈ r.world.store.networks.get key, n.activeCIDR = ""

def leakContract :
    Contract NamespacedName (Note NamespacedName NetworkCall NetworkOutcome) Registry Choice
      NetworkHappening where
  inv := Tidy
  rely := LeftAlone
  guar i r r' := ∀ j, j ≠ i → LeftAlone j r r'
  admits i note choice r :=
    match note with
    | .call _ c => Careful i choice r c
    | .done _ _ => True
  admitsEnv e r := SparesSubnets r e
  rest i r := r.pending i = none

instance (i : NamespacedName) (choice : Choice) (r : Registry) (c : NetworkCall) :
    Decidable (Careful i choice r c) :=
  match c with
  | .createAllocation _ => inferInstanceAs (Decidable (Unassigned _ _ ∧ (_ ∨ _)))
  | .patchNetworkStatus _ _ => inferInstanceAs (Decidable (_ ∨ _))
  | .getNetwork _ | .getPool _ | .listAllocations | .setControllerReference | .listPeers _ _ =>
      .isTrue trivial

instance (i : NamespacedName) (note : Note NamespacedName NetworkCall NetworkOutcome)
    (choice : Choice) (r : Registry) : Decidable (leakContract.admits i note choice r) :=
  match note with
  | .call _ c => inferInstanceAs (Decidable (Careful i choice r c))
  | .done _ _ => .isTrue trivial

instance (e : NetworkHappening) (r : Registry) : Decidable (leakContract.admitsEnv e r) :=
  match e with
  | .createNetwork _ => .isTrue trivial
  | .deleteNetwork _ => inferInstanceAs (Decidable (_ ∧ _))

theorem LeftAlone.refl (i : NamespacedName) (r : Registry) : LeftAlone i r r :=
  ⟨rfl, rfl, fun _ _ h => h, fun _ n hn => ⟨n, hn, rfl⟩⟩

theorem Recorded.leftAlone (h : Recorded r.world.store i name) (hleft : LeftAlone i r r')
    (hpending : r.pending i ≠ none) :
    Recorded r'.world.store i name := by
  obtain ⟨x, n, hx, hn, hcidr⟩ := h
  obtain ⟨n', hn', hsame⟩ := hleft.network hpending n hn
  exact ⟨x, n', hleft.grows _ x hx, hn', hsame.trans hcidr⟩

/-! ## Steps -/

/-- Networks keep their subnets, whatever else changes about them. -/
structure SameSubnets (s s' : Store) : Prop where
  allocations : s'.allocations = s.allocations
  forth : ∀ q n, s.networks.get q = some n →
    ∃ n', s'.networks.get q = some n' ∧ n'.activeCIDR = n.activeCIDR
  back : ∀ q n', s'.networks.get q = some n' →
    ∃ n, s.networks.get q = some n ∧ n'.activeCIDR = n.activeCIDR

theorem SameSubnets.refl (s : Store) : SameSubnets s s :=
  ⟨rfl, fun _ n h => ⟨n, h, rfl⟩, fun _ n h => ⟨n, h, rfl⟩⟩

theorem SameSubnets.recorded {s s' : Store} (h : SameSubnets s s') (hrecorded : Recorded s i name) :
    Recorded s' i name := by
  obtain ⟨x, n, hx, hn, hcidr⟩ := hrecorded
  obtain ⟨n', hn', hsame⟩ := h.forth i n hn
  exact ⟨x, n', by rw [h.allocations]; exact hx, hn', hsame.trans hcidr⟩

theorem SameSubnets.unassigned {s s' : Store} (h : SameSubnets s s') (hs : Unassigned s i) :
    Unassigned s' i := by
  obtain ⟨n, hn, hempty⟩ := hs
  obtain ⟨n', hn', hsame⟩ := h.forth i n hn
  exact ⟨n', hn', hsame.trans hempty⟩

variable {w : World} {pending : NamespacedName → Option String}

/-- What was created for a network is about to be recorded, or recorded. -/
def Expected (r : Registry) (i : NamespacedName) (name : String) : Prop :=
  (r.pending i = some name ∧ Unassigned r.world.store i) ∨ Recorded r.world.store i name

theorem Expected.of_same (h : Expected r i name) (hpending : r'.pending i = r.pending i)
    (hnetwork : r'.world.store.networks.get i = r.world.store.networks.get i)
    (hallocations : r'.world.store.allocations = r.world.store.allocations) :
    Expected r' i name := by
  unfold Expected Unassigned Recorded
  rw [hpending, hnetwork, hallocations]
  exact h

/-- A step that creates nothing. -/
theorem Tidy.of_same (h : Tidy r) (hallocations : w.store.allocations = r.world.store.allocations)
    (hstate : ∀ j name, name ∈ r.created j → Expected r j name →
      Expected ⟨w, pending, r.created⟩ j name)
    (hblank : ∀ j n, w.store.networks.get j = some n → r.created j = [] → n.activeCIDR = "") :
    Tidy ⟨w, pending, r.created⟩ :=
  { h with
    named := hallocations ▸ h.named
    owner := hallocations ▸ h.owner
    state := fun j name hmem =>
      ⟨hallocations ▸ (h.state j name hmem).1, hstate j name hmem (h.state j name hmem).2⟩
    blank := hblank }

/-- A step that keeps the subnets of networks and notes nothing. -/
theorem Tidy.sameSubnets (h : Tidy r) (hstore : SameSubnets r.world.store w.store) :
    Tidy { r with world := w } ∧ ∀ j, LeftAlone j r { r with world := w } := by
  refine ⟨h.of_same hstore.allocations (fun i name _ hstate => ?_) fun i n hn hnone => ?_,
    fun j => { LeftAlone.refl j r with grows := ?_, network := fun _ => hstore.forth j }⟩
  · exact hstate.imp (And.imp_right hstore.unassigned) hstore.recorded
  · obtain ⟨n', hn', hsame⟩ := hstore.back i n hn
    exact hsame.trans (h.blank i n' hn' hnone)
  · rw [hstore.allocations]
    exact fun _ _ hx => hx

/-- A patch of a network that is not about its subnet. -/
theorem sameSubnets_patch {base modified : LatticeNetwork}
    (hsame : base.activeCIDR = modified.activeCIDR) (choice : Choice) (w : World) :
    SameSubnets w.store (execNetwork (.patchNetworkStatus base modified) choice w).2.store := by
  rw [execNetwork]
  rcases write_cases choice w (w.store.patchNetworkStatus base modified) with h | ⟨n, s, hout, h⟩
  · rw [h]
    exact .refl _
  · obtain ⟨current, hget, rfl, rfl⟩ := Store.patchNetworkStatus_eq_ok hout
    obtain ⟨new, hnew⟩ : ∃ n, patchedNetworkStatus base modified current = n := ⟨_, rfl⟩
    rw [h, hnew]
    have hkey : new.metadata.key = modified.metadata.key := by
      rw [← hnew]
      exact key_of_get hget
    have hcidr : new.activeCIDR = current.activeCIDR := by
      simp [← hnew, patchedNetworkStatus, mergeField, hsame]
    have hself : (w.store.networks.put new).get modified.metadata.key = some new :=
      hkey ▸ get_put_self _ new
    have hother : ∀ q, q ≠ modified.metadata.key →
        (w.store.networks.put new).get q = w.store.networks.get q := fun q hq =>
      get_put_ne fun heq => hq (heq.trans hkey)
    refine ⟨rfl, fun q n hn => ?_, fun q n' hn' => ?_⟩
    · by_cases hq : q = modified.metadata.key
      · subst hq
        rw [hget] at hn
        cases hn
        exact ⟨_, hself, hcidr⟩
      · exact ⟨n, (hother q hq).trans hn, rfl⟩
    · by_cases hq : q = modified.metadata.key
      · subst hq
        obtain rfl := Option.some.inj (hself.symm.trans hn')
        exact ⟨current, hget, hcidr⟩
      · exact ⟨n', (hother q hq).symm.trans hn', rfl⟩

/-- Calls other than the two that matter. -/
def Routine : NetworkCall → Prop
  | .patchNetworkStatus base modified => base.activeCIDR = modified.activeCIDR
  | .createAllocation _ => False
  | _ => True

theorem step_routine {c : NetworkCall} (hc : Routine c) (choice : Choice) (h : Tidy r) :
    Tidy (register (.call i c) choice r).2 ∧
      ∀ j, LeftAlone j r (register (.call i c) choice r).2 := by
  cases c with
  | createAllocation => exact hc.elim
  | patchNetworkStatus base modified => exact h.sameSubnets (sameSubnets_patch hc choice r.world)
  | _ => exact h.sameSubnets (.refl _)

/-- The reconcile of `i` has created the subnet with the given text and not recorded it. -/
def HoldsSubnet (i : NamespacedName) (cidr : String) (r : Registry) : Prop :=
  ∃ name x, r.pending i = some name ∧ name ∈ r.created i ∧
    r.world.store.allocations.get ⟨"", name⟩ = some x ∧ x.cidr = cidr

theorem HoldsSubnet.leftAlone {cidr : String} (h : HoldsSubnet i cidr r)
    (hleft : LeftAlone i r r') :
    HoldsSubnet i cidr r' := by
  obtain ⟨name, x, hpending, hmem, hx, hcidr⟩ := h
  refine ⟨name, x, ?_, ?_, hleft.grows _ x hx, hcidr⟩
  · rw [hleft.pending]
    exact hpending
  · rw [hleft.created]
    exact hmem

/-- A network for which a subnet was created exists, and has it or is about to get it. -/
theorem Tidy.network_of_created (h : Tidy r) (hne : r.created i ≠ []) :
    ∃ n, r.world.store.networks.get i = some n ∧ (n.activeCIDR = "" → r.pending i ≠ none) := by
  obtain ⟨name, hmem⟩ := List.exists_mem_of_ne_nil _ hne
  rcases (h.state i name hmem).2 with ⟨hp, n, hn, -⟩ | ⟨x, n, hx, hn, hcidr⟩
  · exact ⟨n, hn, fun _ => by simp [hp]⟩
  · exact ⟨n, hn, fun hempty => absurd (hcidr.symm.trans hempty) (h.named _ x hx).cidr_ne⟩

/-- Nothing has been created for a network without a subnet, outside of a reconcile. -/
theorem Tidy.created_eq_nil (h : Tidy r) (hblank : Unassigned r.world.store i)
    (hpending : r.pending i = none) : r.created i = [] := by
  by_contra hne
  obtain ⟨n, hn, hempty⟩ := hblank
  obtain ⟨n', hn', hwaits⟩ := h.network_of_created hne
  rw [hn] at hn'
  cases hn'
  exact hwaits hempty hpending

/-- The registry after a first allocation was created for a network. -/
def Registry.withFirst (i : NamespacedName) (x : LatticeSubnetAllocation) (r : Registry) :
    Registry where
  world := r.world.commit { r.world.store with allocations := r.world.store.allocations.put x }
  pending := update r.pending i (some x.metadata.name)
  created := update r.created i [x.metadata.name]

/-- A subnet is created for a network that has none. -/
theorem Tidy.create (h : Tidy r) (hnamed : NamedAfterAddress x)
    (hblank : Unassigned r.world.store i) (hnone : r.pending i = none)
    (hfree : r.world.store.allocations.get x.metadata.key = none) : Tidy (r.withFirst i x) := by
  have hkey := hnamed.key_eq
  have hempty := h.created_eq_nil hblank hnone
  -- the new name has not been used before
  have hfresh : ∀ j, x.metadata.name ∉ r.created j := by
    intro j hmem
    obtain ⟨⟨y, hy⟩, -⟩ := h.state j _ hmem
    rw [← hkey, hfree] at hy
    cases hy
  have hcases : ∀ j name, name ∈ (r.withFirst i x).created j →
      (j = i ∧ name = x.metadata.name) ∨ (j ≠ i ∧ name ∈ r.created j) := by
    intro j name hmem
    by_cases hj : j = i
    · subst hj
      exact .inl ⟨rfl, by simpa [withFirst] using hmem⟩
    · exact .inr ⟨hj, by simpa [withFirst, hj] using hmem⟩
  refine ⟨fun k y hy => ?_, fun k y hy => ?_, fun j => ?_, fun j name hmem => ?_,
    fun j n hn hnil => ?_, fun j j' name hmem hmem' => ?_⟩
  · rcases get_put_cases hy with ⟨-, rfl⟩ | ⟨-, hold⟩
    · exact hnamed
    · exact h.named k y hold
  · rcases get_put_cases hy with ⟨-, rfl⟩ | ⟨-, hold⟩
    · exact ⟨i, by simp [withFirst]⟩
    · obtain ⟨j, hj⟩ := h.owner k y hold
      have hji : j ≠ i := by
        rintro rfl
        rw [hempty] at hj
        cases hj
      exact ⟨j, by simpa [withFirst, hji] using hj⟩
  · by_cases hj : j = i
    · simp [withFirst, hj]
    · simpa [withFirst, hj] using h.once j
  · rcases hcases j name hmem with ⟨rfl, rfl⟩ | ⟨hj, hold⟩
    · exact ⟨⟨x, hkey ▸ get_put_self _ x⟩, .inl ⟨update_self _ _ _, hblank⟩⟩
    · obtain ⟨⟨y, hy⟩, hstate⟩ := h.state j name hold
      refine ⟨⟨y, get_put_of_free hfree hy⟩, ?_⟩
      rcases hstate with ⟨hp, hu⟩ | ⟨z, n, hz, hn, hcidr⟩
      · exact .inl ⟨(update_of_ne hj _ _).trans hp, hu⟩
      · exact .inr ⟨z, n, get_put_of_free hfree hz, hn, hcidr⟩
  · have hj : j ≠ i := by
      rintro rfl
      simp [withFirst] at hnil
    exact h.blank j n hn (by simpa [withFirst, hj] using hnil)
  · rcases hcases j name hmem with ⟨rfl, rfl⟩ | ⟨hj, hold⟩
    · rcases hcases j' _ hmem' with ⟨rfl, -⟩ | ⟨-, hold'⟩
      · rfl
      · exact absurd hold' (hfresh j')
    · rcases hcases j' name hmem' with ⟨rfl, rfl⟩ | ⟨-, hold'⟩
      · exact absurd hold (hfresh j)
      · exact h.single j j' name hold hold'

/-- The call that creates a subnet. -/
theorem step_create (hnamed : NamedAfterAddress x) {choice : Choice}
    (hcareful : Careful i choice r (.createAllocation x)) (hnone : r.pending i = none) (h : Tidy r)
    {out : Except GoError Unit × Registry}
    (hout : register (.call i (.createAllocation x)) choice r = out) :
    Tidy out.2 ∧ (∀ j, j ≠ i → LeftAlone j r out.2) ∧
      (out.1 = .ok () → HoldsSubnet i x.cidr out.2) ∧
      ∀ err, out.1 = .error err → out.2.pending i = none := by
  obtain ⟨hblank, htold⟩ := hcareful
  rcases createAllocation_cases x choice r.world with
    ⟨err, heq⟩ | ⟨hfree, hworld, hok | ⟨f, hfault, hlost, -⟩⟩
  · -- refused
    have hsame : out = (.error err, r) := by
      simp only [← hout, register, heq, after]
      cases r.world.store.allocations.get x.metadata.key <;> rfl
    rw [hsame]
    exact ⟨h, fun j _ => .refl j r, nofun, fun _ _ => hnone⟩
  · -- created
    have hself : (r.world.store.allocations.put x).get x.metadata.key = some x :=
      get_put_self _ x
    have hafter : out = (.ok (), r.withFirst i x) := by
      simp [← hout, register, hok, hworld, after, World.commit, hfree, hself,
        withFirst, h.created_eq_nil hblank hnone]
    rw [hafter]
    refine ⟨h.create hnamed hblank hnone hfree, fun j hj => ?_, fun _ => ?_, nofun⟩
    · exact ⟨update_of_ne hj _ _, update_of_ne hj _ _,
        fun k y hy => get_put_of_free hfree hy, fun _ n hn => ⟨n, hn, rfl⟩⟩
    · exact ⟨x.metadata.name, x, update_self _ _ _, by simp [withFirst],
        hnamed.key_eq ▸ hself, rfl⟩
  · -- the answer does not get lost
    rcases htold with hnofault | hkept
    · rw [hfault] at hnofault
      cases hnofault
    · rw [hlost] at hkept
      cases hkept

/-- The reconcile of `i` has left nothing to be recorded. -/
def AllRecorded (i : NamespacedName) (r : Registry) : Prop :=
  ∀ name, r.pending i = some name → Recorded r.world.store i name

theorem AllRecorded.leftAlone (h : AllRecorded i r) (hleft : LeftAlone i r r') :
    AllRecorded i r' := by
  intro name hname
  rw [hleft.pending] at hname
  exact (h name hname).leftAlone hleft (by simp [hname])

theorem allRecorded_of_none (h : r.pending i = none) : AllRecorded i r := by
  intro name hname
  rw [h] at hname
  cases hname

/-- The registry with other networks. -/
abbrev Registry.withNetworks (r : Registry) (networks : Table LatticeNetwork) : Registry :=
  { r with world := r.world.commit { r.world.store with networks := networks } }

theorem leftAlone_networks (j : NamespacedName) {networks : Table LatticeNetwork}
    (hkept : r.pending j ≠ none → ∀ n, r.world.store.networks.get j = some n →
      ∃ n', networks.get j = some n' ∧ n'.activeCIDR = n.activeCIDR) :
    LeftAlone j r (r.withNetworks networks) :=
  ⟨rfl, rfl, fun _ _ hx => hx, hkept⟩

/-- One network changes, in a way that suits what was created for it. -/
theorem Tidy.networks (h : Tidy r) {key : NamespacedName} {networks : Table LatticeNetwork}
    (hothers : ∀ q, q ≠ key → networks.get q = r.world.store.networks.get q)
    (hstate : ∀ name ∈ r.created key, Expected (r.withNetworks networks) key name)
    (hblank : ∀ n, networks.get key = some n → r.created key = [] → n.activeCIDR = "") :
    Tidy (r.withNetworks networks) := by
  refine h.of_same rfl (fun j name hmem hj => ?_) fun j n hn hnil => ?_
  · by_cases hkey : j = key
    · subst hkey
      exact hstate name hmem
    · exact hj.of_same rfl (hothers j hkey) rfl
  · by_cases hkey : j = key
    · subst hkey
      exact hblank n hn hnil
    · exact h.blank j n ((hothers j hkey).symm.trans hn) hnil

variable {network : LatticeNetwork}

/-- The patch that records a subnet. -/
theorem step_record {cidr : String} {choice : Choice} (hkey : network.metadata.key = i)
    (hempty : network.activeCIDR = "")
    (hcareful : Careful i choice r (.patchNetworkStatus network (withSubnet cidr network)))
    (hholds : HoldsSubnet i cidr r) (h : Tidy r)
    (hafter : r' =
      (register (.call i (.patchNetworkStatus network (withSubnet cidr network))) choice r).2) :
    Tidy r' ∧ (∀ j, j ≠ i → LeftAlone j r r') ∧ AllRecorded i r' := by
  subst hkey
  obtain ⟨name, x, hpending, hmem, hx, hcidr⟩ := hholds
  have hne : network.activeCIDR ≠ cidr := by
    rw [hempty, ← hcidr]
    exact (h.named _ x hx).cidr_ne.symm
  have hfault : choice.fault = none := by
    rcases hcareful with hsame | hfault
    · exact absurd hsame hne
    · exact hfault
  -- the network is there, since it has been waiting for its subnet
  obtain ⟨current, hcurrent, -⟩ := h.network_of_created (List.ne_nil_of_mem hmem)
  let patched := patchedNetworkStatus network (withSubnet cidr network) current
  obtain rfl : r' = r.withNetworks (r.world.store.networks.put patched) := by
    have hget : r.world.store.networks.get (withSubnet cidr network).metadata.key =
        some current := hcurrent
    simp only [hafter, register, execNetwork, Store.patchNetworkStatus, hget, Choice.write, hfault]
    rfl
  have hpatched : patched.metadata.key = network.metadata.key := key_of_get hcurrent
  have hothers : ∀ q, q ≠ network.metadata.key →
      (r.world.store.networks.put patched).get q = r.world.store.networks.get q :=
    fun q hq => get_put_ne fun heq => hq (heq.trans hpatched)
  have hrecorded : Recorded
      (r.withNetworks (r.world.store.networks.put patched)).world.store network.metadata.key name :=
    ⟨x, patched, hx, hpatched ▸ get_put_self _ patched, (if_neg hne).trans hcidr.symm⟩
  refine ⟨h.networks hothers (fun name' hmem' => ?_) fun n _ hnil => ?_, fun j hj => ?_,
    fun name' hname' => ?_⟩
  · rw [mem_created h hmem, List.mem_singleton] at hmem'
    subst hmem'
    exact .inr hrecorded
  · rw [hnil] at hmem
    cases hmem
  · exact leftAlone_networks j fun _ n hn => ⟨n, (hothers j hj).trans hn, rfl⟩
  · obtain rfl : name = name' := Option.some.inj (hpending.symm.trans hname')
    exact hrecorded

/-- The end of a reconcile that has recorded everything. -/
theorem step_done (h : Tidy r) (hdone : AllRecorded i r) :
    Tidy { r with pending := update r.pending i none } ∧
      ∀ j, j ≠ i → LeftAlone j r { r with pending := update r.pending i none } := by
  refine ⟨h.of_same rfl (fun j name _ hstate => ?_) h.blank, fun j hj => ?_⟩
  · by_cases hj : j = i
    · subst hj
      exact .inr (hstate.elim (fun hp => hdone name hp.1) id)
    · exact hstate.of_same (update_of_ne hj _ _) rfl rfl
  · exact ⟨update_of_ne hj _ _, rfl, fun _ _ hx => hx, fun _ n hn => ⟨n, hn, rfl⟩⟩

/-! ## The reconcile -/

/-- The contract as the calls of the reconciler of `i` see it. -/
abbrev leakCalls (i : NamespacedName) : Contract NamespacedName NetworkCall Registry Choice
    NetworkHappening :=
  leakContract.callsOf i

theorem stable_none : (leakCalls i).Stable i fun r => r.pending i = none :=
  fun _ _ h hleft => hleft.pending.trans h

/-- A status update that is not about the subnet. -/
theorem within_updateNetworkStatus {f : LatticeNetwork → LatticeNetwork}
    (hf : network.activeCIDR = (f network).activeCIDR) :
    (updateNetworkStatus network f).Within Routine fun _ => True := by
  refine ⟨hf, fun answer => ?_⟩
  cases answer with
  | ok patched => trivial
  | error err =>
    dsimp only [Program.bind]
    split_ifs
    · trivial
    · trivial

theorem within_countPeers (network : LatticeNetwork) :
    (countPeers network).Within Routine fun _ => True := by
  refine ⟨trivial, fun answer => ?_⟩
  cases answer with
  | error err => trivial
  | ok peers =>
    dsimp only [Program.bind]
    split_ifs
    · trivial
    · apply within_bind (within_updateNetworkStatus rfl)
      intro r _
      cases r with
      | error err | ok _ => trivial

/-- Programs that stay with routine calls keep what is stable. -/
theorem wp_routine {α : Type} {p : NetworkProg α} {Q : α → Prop} {A : Registry → Prop}
    (hstable : (leakCalls i).Stable i A) (hp : p.Within Routine Q) (hr : A r) :
    (leakCalls i).wp (fun c => register (.call i c)) i p (fun a t => Q a ∧ A t) r := by
  apply wp_of_within hstable _ hp hr
  intro c hc t choice ht hinv _
  obtain ⟨hinv', hleft⟩ := step_routine hc choice hinv
  exact ⟨hinv', fun j _ => hleft j, hstable _ _ ht (hleft i)⟩

/-- The reconciler as a caller of `AllocateSubnet`. -/
theorem leakCaller (i : NamespacedName) (name : String) (pool : LatticeGlobalIPPool) :
    Caller (leakCalls i) (fun c => register (.call i c)) i name pool (fun _ => True)
      (fun r => r.pending i = none) (HoldsSubnet i) where
  stable := stable_none
  reads c hc t choice ht hinv _ := by
    have hroutine : Routine c := by
      cases c with
      | createAllocation | patchNetworkStatus => exact hc.elim
      | _ => trivial
    obtain ⟨hinv', hleft⟩ := step_routine hroutine choice hinv
    exact ⟨hinv', fun j _ => hleft j, stable_none _ _ ht (hleft i)⟩
  create ip _ t choice ht hinv hcareful := by
    have hnamed : NamedAfterAddress (newAllocation name pool ip) := ⟨ip, _, rfl, rfl⟩
    exact step_create hnamed hcareful ht hinv rfl

theorem wp_countPeers (network : LatticeNetwork) (hr : AllRecorded i r) :
    (leakCalls i).wp (fun c => register (.call i c)) i (countPeers network)
      (fun _ => AllRecorded i) r := by
  apply wp_mono _ (wp_routine (fun _ _ => AllRecorded.leftAlone) (within_countPeers network) hr)
  intro outcome t ht
  exact ht.2

theorem wp_assignSubnet (hkey : network.metadata.key = i) (hempty : network.activeCIDR = "")
    (hr : r.pending i = none) :
    (leakCalls i).wp (fun c => register (.call i c)) i (assignSubnet network)
      (fun _ => AllRecorded i) r := by
  have hpool : (NetworkCall.getPool poolKey).issue.Within Routine fun _ => True :=
    ⟨trivial, fun _ => trivial⟩
  apply wp_bind.mpr
  apply wp_mono _ (wp_routine stable_none hpool hr)
  intro answer t ht
  cases answer with
  | error err => exact allRecorded_of_none ht.2
  | ok pool =>
    have hfind : (findFirstFree pool).Within NetworkCall.Reads
        fun r => ∀ ip, r = some (.ok ip) → True :=
      (within_findFirstFree pool).mono (fun _ => id) fun _ _ _ _ => trivial
    apply wp_bind.mpr
    apply wp_mono _ (wp_allocateAttempts (leakCaller i _ pool) hfind 10 ht.2)
    intro answer u hu
    cases answer with
    | none => exact allRecorded_of_none (hu.2 (by simp))
    | some answer =>
      cases answer with
      | error err => exact allRecorded_of_none (hu.2 (by simp))
      | ok cidr =>
        apply wp_call (HoldsSubnet i cidr)
          (fun _ _ h hleft => h.leftAlone hleft) (hu.1 cidr rfl)
        intro v hv hinv choice hcareful
        obtain ⟨hinv', hguar, hdone⟩ := step_record hkey hempty hcareful hv hinv rfl
        refine ⟨hinv', hguar, ?_⟩
        have hcount := wp_countPeers network hdone
        cases (register (.call i (.patchNetworkStatus network (withSubnet cidr network)))
            choice v).1 with
        | error err =>
          dsimp only [Program.bind]
          split_ifs
          · exact hcount
          · exact hdone
        | ok patched =>
          dsimp only [Program.bind]
          cases sameStatus patched network with
          | true => exact hcount
          | false => exact hdone

theorem wp_getNetwork (hr : r.pending i = none) :
    (leakCalls i).wp (fun c => register (.call i c)) i (NetworkCall.getNetwork i).issue
      (fun answer t => (∀ network, answer = .ok network → network.metadata.key = i) ∧
        t.pending i = none) r := by
  apply wp_call (fun t : Registry => t.pending i = none) stable_none hr
  intro t ht hinv choice _
  have hroutine : Routine (.getNetwork i) := trivial
  obtain ⟨hinv', hleft⟩ := step_routine hroutine choice hinv
  refine ⟨hinv', fun j _ => hleft j, fun network hanswer => ?_, stable_none _ _ ht (hleft i)⟩
  obtain ⟨-, hfound⟩ := Choice.read_eq_ok hanswer
  cases hget : (t.world.seen choice.lag).networks.get i with
  | none => simp [hget, found] at hfound
  | some n =>
    obtain rfl : n = network := by simpa [hget, found] using hfound
    exact key_of_get hget

theorem wp_reconcileNetwork (hr : r.pending i = none) :
    (leakCalls i).wp (fun c => register (.call i c)) i (reconcileNetwork i)
      (fun _ => AllRecorded i) r := by
  apply wp_bind.mpr
  apply wp_mono _ (wp_getNetwork hr)
  intro answer t ht
  obtain ⟨hkey, hnone⟩ := ht
  cases answer with
  | error err =>
    dsimp only
    split_ifs
    · exact allRecorded_of_none hnone
    · exact allRecorded_of_none hnone
  | ok network =>
    have hmark : (markCreating network).Within Routine fun _ => True := by
      unfold markCreating
      split_ifs
      · exact within_updateNetworkStatus rfl
      · trivial
    apply wp_bind.mpr
    apply wp_mono _ (wp_routine stable_none hmark hnone)
    intro marked u hu
    cases marked with
    | error err => exact allRecorded_of_none hu.2
    | ok _ =>
      split_ifs with hempty
      · exact wp_assignSubnet (hkey network rfl) hempty hu.2
      · exact wp_countPeers network (allRecorded_of_none hu.2)

/-- The end of a reconcile. -/
theorem wp_done (outcome : NetworkOutcome) (hr : AllRecorded i r) :
    leakContract.wp register i (.call (.done i outcome) fun _ => .ret ())
      (fun _ t => t.pending i = none) r := by
  apply wp_call (AllRecorded i) (fun _ _ h hleft => h.leftAlone hleft) hr
  intro t ht hinv choice _
  obtain ⟨hinv', hguar⟩ := step_done hinv ht
  exact ⟨hinv', hguar, update_self _ _ _⟩

/-! ## What happens besides -/

/-- Nothing was created for a network that does not exist. -/
theorem Tidy.created_of_absent (h : Tidy r) {key : NamespacedName}
    (habsent : r.world.store.networks.get key = none) : r.created key = [] := by
  by_contra hne
  obtain ⟨n, hn, -⟩ := h.network_of_created hne
  simp [habsent] at hn

theorem leak_env (e : NetworkHappening) (h : Tidy r) (hspares : SparesSubnets r e) :
    Tidy (networkHappen e r) ∧ ∀ j, LeftAlone j r (networkHappen e r) := by
  cases e with
  | createNetwork obj =>
    rw [networkHappen]
    split
    · exact ⟨h, fun j => .refl j r⟩
    · rename_i habsent
      have hself : (HasMeta.metadata (createdNetwork obj)).key = obj.metadata.key := rfl
      have hnone : r.created obj.metadata.key = [] := h.created_of_absent habsent
      refine ⟨h.networks (fun q hq => get_put_ne hq) (by simp [hself, hnone])
        fun n hn _ => ?_, fun j => leftAlone_networks j fun _ n hn => ⟨n, ?_, rfl⟩⟩
      · rcases get_put_cases hn with ⟨-, rfl⟩ | ⟨hne, -⟩
        · rfl
        · exact absurd hself.symm hne
      · exact get_put_of_free habsent hn
  | deleteNetwork key =>
    obtain ⟨hpending, hblank⟩ := hspares
    have hnone : r.created key = [] := by
      cases hget : r.world.store.networks.get key with
      | none => exact h.created_of_absent hget
      | some n => exact h.created_eq_nil ⟨n, hget, hblank n hget⟩ hpending
    refine ⟨h.networks (fun q hq => get_erase_ne hq) (by simp [hnone]) fun n hn _ => ?_,
      fun j => leftAlone_networks j fun hp n hn => ⟨n, ?_, rfl⟩⟩
    · rw [get_erase_self] at hn
      cases hn
    · refine (get_erase_ne fun heq => ?_).trans hn
      rw [heq] at hp
      exact hp hpending

theorem leak_respects : leakContract.Respects networkControllers where
  program _ _ _ hrest := wp_journal
    (wp_mono (fun outcome _ h => wp_done outcome h) (wp_reconcileNetwork hrest))
  stable _ _ _ h hleft := hleft.pending.trans h
  compat _ j _ _ hij hguar := hguar j hij.symm
  env e _ hinv hspares := leak_env e hinv hspares

/-! ## The theorem -/

/-- The run meets the conditions at every call and at every happening. -/
def CarefulRun (w : World) (schedule : List (Action NamespacedName Choice NetworkHappening)) :
    Prop :=
  leakContract.Along networkControllers (Workers.idle { world := w }) schedule

instance (w : World) (schedule : List (Action NamespacedName Choice NetworkHappening)) :
    Decidable (CarefulRun w schedule) :=
  inferInstanceAs (Decidable (leakContract.Along _ _ schedule))

/-- No subnet has been allocated yet. -/
structure Unallocated (s : Store) : Prop where
  noAllocation : ∀ k, s.allocations.get k = none
  noSubnet : ∀ q n, s.networks.get q = some n → n.activeCIDR = ""

/-- **No leaked subnet**, in every state that such a run reaches. -/
theorem unleaked_along (w : World) (hstart : Unallocated w.store)
    (schedule : List (Action NamespacedName Choice NetworkHappening))
    (hcareful : CarefulRun w schedule) : Unleaked (registryAfter w schedule) := by
  have htidy : Tidy { world := w } := by
    refine ⟨fun k x hx => ?_, fun k x hx => ?_, fun i => by simp, fun i name hmem => ?_,
      fun i n hn _ => hstart.noSubnet i n hn, fun i j name hmem => ?_⟩
    · simp [hstart.noAllocation k] at hx
    · simp [hstart.noAllocation k] at hx
    · cases hmem
    · cases hmem
  have hsound : leakContract.Sound networkControllers
      (networkControllers.run (Workers.idle { world := w }) schedule) :=
    (sound_idle htidy fun _ => rfl).run leak_respects hcareful
  exact hsound.inv.unleaked

/-! ## The timeout

The patch that records the subnet of a network times out, and the network is reconciled
again. -/

namespace Timeout

def a : NamespacedName := ⟨"d", "a"⟩

def start : World :=
  { store :=
      { networks := ofList [{ metadata := { ns := "d", name := "a" } }]
        pools := ofList [{
          metadata := { name := "lattice-ip-pool" }
          cidr := "10.0.0.0/8"
          subnetMask := 24 }] } }

/-- The next `n` calls of the reconciler succeed. -/
def calls (n : ℕ) : List (Action NamespacedName Choice NetworkHappening) :=
  List.replicate n (.advance a {})

def retried : List (Action NamespacedName Choice NetworkHappening) :=
  [.start a] ++ calls 6 ++ [.advance a { fault := some (.transient "timeout") }] ++ calls 2 ++
    [.start a] ++ calls 7

theorem start_unallocated : Unallocated start.store := by
  refine ⟨fun k => rfl, fun q n hn => ?_⟩
  rcases get_put_cases hn with ⟨-, rfl⟩ | ⟨-, hnone⟩
  · rfl
  · cases hnone

/-- The CIDR of an allocation. -/
def cidrOf (r : Registry) (name : String) : Option String :=
  (r.world.store.allocations.get ⟨"", name⟩).map fun x => x.cidr

/-- Some network has the given subnet. -/
def usedBySome (r : Registry) (cidr : String) : Bool :=
  (r.world.store.networks.listAll Go.Order.inPlace).any fun n => n.activeCIDR == cidr

end Timeout

open Timeout in
/-- Two allocations have been created for the network; no reconcile is in progress, and the
first belongs to nobody. -/
theorem leaked_after_timeout :
    Unallocated start.store ∧
      (registryAfter start retried).created a = ["subnet-0a000000", "subnet-0a000100"] ∧
      (registryAfter start retried).pending a = none ∧
      cidrOf (registryAfter start retried) "subnet-0a000000" = some "10.0.0.0/24" ∧
      usedBySome (registryAfter start retried) "10.0.0.0/24" = false ∧
      ¬ Unleaked (registryAfter start retried) := by
  have hcreated : (registryAfter start retried).created a =
      ["subnet-0a000000", "subnet-0a000100"] := by
    decide +kernel
  have hpending : (registryAfter start retried).pending a = none := by decide +kernel
  have hcidr : cidrOf (registryAfter start retried) "subnet-0a000000" = some "10.0.0.0/24" := by
    decide +kernel
  have hused : usedBySome (registryAfter start retried) "10.0.0.0/24" = false := by
    decide +kernel
  refine ⟨start_unallocated, hcreated, hpending, hcidr, hused, fun h => ?_⟩
  have hlen := h.once a
  rw [hcreated] at hlen
  simp at hlen

open Timeout in
/-- Without the timeout the allocation is that of the network. -/
theorem unleaked_along_success :
    cidrOf (registryAfter start ([.start a] ++ calls 8)) "subnet-0a000000" =
        some "10.0.0.0/24" ∧
      usedBySome (registryAfter start ([.start a] ++ calls 8)) "10.0.0.0/24" = true ∧
      Unleaked (registryAfter start ([.start a] ++ calls 8)) := by
  have hcareful : CarefulRun start ([.start a] ++ calls 8) := by decide +kernel
  have hcidr : cidrOf (registryAfter start ([.start a] ++ calls 8)) "subnet-0a000000" =
      some "10.0.0.0/24" := by
    decide +kernel
  have hused : usedBySome (registryAfter start ([.start a] ++ calls 8)) "10.0.0.0/24" = true := by
    decide +kernel
  exact ⟨hcidr, hused, unleaked_along start start_unallocated _ hcareful⟩

end Wireflow.Controller
