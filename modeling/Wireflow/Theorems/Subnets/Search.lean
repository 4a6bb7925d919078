/-
# The search for a free subnet

What `search` returns lies in the pool, is not in the list of used names, and was reached from
the start in steps of one subnet (`search_ok`). The bound on the number of candidates costs
nothing: a search that has not ended within it never ends (`search_unbounded`).

For a pool of four-byte addresses and a prefix length between that of the pool and 32, all
candidates are aligned, so that subnets with different addresses are disjoint.

`wp_allocateAttempts` is the rule for `AllocateSubnet` among concurrent callers: one says what
holds before a subnet is created and what the creation establishes.
-/

import Mathlib.Data.Fintype.Pigeonhole
import Wireflow.Controller.Subnets

namespace Wireflow.Controller

open Go.Net Function
open Semantics Contract
open Wireflow.Api

variable {net : IPNet} {used : List String} {mask : ℤ}

/-! ## Candidates -/

/-- The candidate at which the search goes on. -/
def Taken (net : IPNet) (used : List String) (ip : IP) : Prop :=
  net.contains ip = true ∧ ipToHex ip ∈ used

variable {ip : IP} {n : ℕ}

/-- The search has not ended iff all candidates so far were taken. -/
theorem search_eq_none_iff :
    search net used mask n ip = none ↔
      ∀ k < n, Taken net used ((fun x => nextSubnet x mask)^[k] ip) := by
  induction n generalizing ip with
  | zero => simp [search]
  | succ n ih =>
    have hsplit : (∀ k < n + 1, Taken net used ((fun x => nextSubnet x mask)^[k] ip)) ↔
        Taken net used ip ∧
          ∀ k < n, Taken net used ((fun x => nextSubnet x mask)^[k] (nextSubnet ip mask)) := by
      constructor
      · intro h
        exact ⟨h 0 (by omega), fun k hk => h (k + 1) (by omega)⟩
      · intro h k hk
        cases k with
        | zero => exact h.1
        | succ k => exact h.2 k (by omega)
    rw [hsplit, search, Taken]
    by_cases hin : net.contains ip = true
    · by_cases hused : ipToHex ip ∈ used
      · simp [hin, hused, ih]
      · simp [hin, hused]
    · simp [hin]

/-- What holds up to a repetition holds forever. -/
theorem iterate_of_repetition {α : Type} {f : α → α} {P : α → Prop} {x : α} {i j : ℕ}
    (hij : i < j) (heq : f^[i] x = f^[j] x) (h : ∀ k < j, P (f^[k] x)) (k : ℕ) :
    P (f^[k] x) := by
  induction k using Nat.strong_induction_on with
  | _ k ih =>
    by_cases hk : k < j
    · exact h k hk
    · -- go back by one period
      have hback : f^[k] x = f^[k - j + i] x := by
        rw [iterate_add_apply, heq, ← iterate_add_apply]
        congr 1
        omega
      rw [hback]
      exact ih _ (by omega)

/-- After the first step all candidates are four-byte addresses, so one of them comes back. -/
theorem exists_repetition (mask : ℤ) (ip : IP) :
    ∃ i j, i < j ∧ j < searchBound ∧
      (fun x => nextSubnet x mask)^[i] ip = (fun x => nextSubnet x mask)^[j] ip := by
  let f : IP → IP := fun x => nextSubnet x mask
  let value (k : Fin (2 ^ 32 + 1)) : Fin (2 ^ 32) := (ipToUint32 (f^[k + 1] ip)).toFin
  have hvalue : ∀ k : ℕ, f^[k + 1] ip = .v4 (ipToUint32 (f^[k + 1] ip)) := by
    intro k
    rw [iterate_succ_apply']
    rfl
  obtain ⟨a, b, hne, heq⟩ := Fintype.exists_ne_map_eq_of_card_lt value (by simp)
  have hsame : f^[a + 1] ip = f^[b + 1] ip := by
    rw [hvalue a, hvalue b, BitVec.toFin_inj.mp heq]
  have hne' : a.val ≠ b.val := fun h => hne (Fin.ext h)
  rcases Nat.lt_or_gt_of_ne hne' with hlt | hlt
  · exact ⟨a + 1, b + 1, by omega, by rw [searchBound]; omega, hsame⟩
  · exact ⟨b + 1, a + 1, by omega, by rw [searchBound]; omega, hsame.symm⟩

/-- **The bound is no restriction.** A search that reaches it would go on forever. -/
theorem search_unbounded (h : search net used mask searchBound ip = none) (n : ℕ) :
    search net used mask n ip = none := by
  rw [search_eq_none_iff] at h ⊢
  obtain ⟨i, j, hij, hj, heq⟩ := exists_repetition mask ip
  intro k _
  exact iterate_of_repetition hij heq (fun k hk => h k (by omega)) k

/-- What the search finds. -/
theorem search_ok {start ip : IP} (h : search net used mask n start = some (.ok ip)) :
    net.contains ip = true ∧ ipToHex ip ∉ used ∧
      ∃ k, ip = (fun x => nextSubnet x mask)^[k] start := by
  induction n generalizing start with
  | zero => cases h
  | succ n ih =>
    rw [search] at h
    split_ifs at h with hin hused
    · obtain ⟨hcontains, hfree, k, hk⟩ := ih h
      exact ⟨hcontains, hfree, k + 1, hk⟩
    · cases h
      exact ⟨hin, hused, 0, rfl⟩
    · cases h

/-! ## Pools of four-byte addresses -/

/-- A pool with a valid four-byte prefix, and a prefix length that fits. -/
structure ValidPool (pool : LatticeGlobalIPPool) (net : IPNet) (m : ℕ) : Prop where
  parses : parseCIDR pool.cidr = .ok net
  four : net.bits = 32
  mask : pool.subnetMask = m
  fits : net.ones ≤ m
  le : m ≤ 32

theorem subnetStep_of_le {m : ℕ} (hm : m ≤ 32) :
    subnetStep m = BitVec.ofNat 32 (2 ^ (32 - m)) := by
  have hcount : ((32 - (m : ℤ)) % 2 ^ 32).toNat = 32 - m := by
    rw [Int.emod_eq_of_lt (by omega) (by omega)]
    omega
  simp only [subnetStep, hcount]
  split_ifs with hlt
  · rfl
  · have hzero : m = 0 := by omega
    subst hzero
    rfl

/-- A subnet of the pool, by its first address. -/
structure Subnet (net : IPNet) (m : ℕ) (a : IPv4) : Prop where
  inside : net.contains (.v4 a) = true
  aligned : Aligned a m

variable {pool : LatticeGlobalIPPool} {m : ℕ}

/-- Every candidate is the first address of a subnet, inside the pool or not. -/
theorem ValidPool.candidates (h : ValidPool pool net m) (k : ℕ) :
    ∃ a, (fun x => nextSubnet x pool.subnetMask)^[k] net.base = .v4 a ∧ Aligned a m := by
  induction k with
  | zero =>
    obtain ⟨hones, b, hbase⟩ := parseCIDR_four h.parses h.four
    refine ⟨_, hbase, ?_⟩
    rw [Aligned, toNat_mask]
    have hdvd : 2 ^ (32 - m) ∣ 2 ^ (32 - net.ones) := pow_dvd_pow 2 (by have := h.fits; omega)
    exact Nat.mod_eq_zero_of_dvd (hdvd.mul_left _)
  | succ k ih =>
    obtain ⟨a, ha, haligned⟩ := ih
    refine ⟨a + BitVec.ofNat 32 (2 ^ (32 - m)), ?_, haligned.add⟩
    rw [iterate_succ_apply', ha, nextSubnet, h.mask, subnetStep_of_le h.le]
    rfl

/-- What is found in a valid pool is a subnet of it. -/
theorem ValidPool.subnet_of_search (h : ValidPool pool net m)
    (hsearch : search net used pool.subnetMask n net.base = some (.ok ip)) :
    ∃ a, ip = .v4 a ∧ Subnet net m a := by
  obtain ⟨hcontains, -, k, rfl⟩ := search_ok hsearch
  obtain ⟨a, ha, haligned⟩ := h.candidates k
  rw [ha] at hcontains
  exact ⟨a, ha, hcontains, haligned⟩

/-- `FindFirstFree` only reads, and returns what the search finds. -/
theorem within_findFirstFree (pool : LatticeGlobalIPPool) :
    (findFirstFree pool).Within NetworkCall.Reads
      fun r => ∀ ip, r = some (.ok ip) → ∃ net used n, parseCIDR pool.cidr = .ok net ∧
        search net used pool.subnetMask n net.base = some (.ok ip) := by
  unfold findFirstFree
  cases parseCIDR pool.cidr with
  | error text => exact nofun
  | ok net =>
    refine ⟨trivial, fun r => ?_⟩
    cases r with
    | error err => exact nofun
    | ok items =>
      intro ip hip
      exact ⟨net, _, _, rfl, hip⟩

/-- In a valid pool it finds subnets. -/
theorem within_findFirstFree_valid (h : ValidPool pool net m) :
    (findFirstFree pool).Within NetworkCall.Reads
      fun r => ∀ ip, r = some (.ok ip) → ∃ a, ip = .v4 a ∧ Subnet net m a := by
  apply (within_findFirstFree pool).mono (fun _ => id)
  intro r hr ip hip
  obtain ⟨net', used, n, hparses, hsearch⟩ := hr ip hip
  rw [h.parses] at hparses
  cases hparses
  exact h.subnet_of_search hsearch

/-! ## The attempts -/

section Attempts

variable {ι σ κ ε : Type} {K : Contract ι NetworkCall σ κ ε}
  {exec : (c : NetworkCall) → κ → σ → c.Res × σ} {i : ι} {name : String}
  {A : σ → Prop} {B : String → σ → Prop} {F : IP → Prop}

/-- A caller of `AllocateSubnet`: `A` holds until a subnet is created, and creating the subnet
with the given text establishes `B`. -/
structure Caller (K : Contract ι NetworkCall σ κ ε)
    (exec : (c : NetworkCall) → κ → σ → c.Res × σ) (i : ι) (name : String)
    (pool : LatticeGlobalIPPool) (F : IP → Prop) (A : σ → Prop) (B : String → σ → Prop) :
    Prop where
  stable : K.Stable i A
  reads : ∀ c, NetworkCall.Reads c → ∀ t choice, A t → K.inv t → K.admits i c choice t →
    K.inv (exec c choice t).2 ∧ K.guar i t (exec c choice t).2 ∧ A (exec c choice t).2
  create : ∀ ip, F ip → ∀ t choice, A t → K.inv t →
    K.admits i (.createAllocation (newAllocation name pool ip)) choice t →
    K.inv (exec (.createAllocation (newAllocation name pool ip)) choice t).2 ∧
      K.guar i t (exec (.createAllocation (newAllocation name pool ip)) choice t).2 ∧
      ((exec (.createAllocation (newAllocation name pool ip)) choice t).1 = .ok () →
        B (prefixText ip pool.subnetMask)
          (exec (.createAllocation (newAllocation name pool ip)) choice t).2) ∧
      ∀ err, (exec (.createAllocation (newAllocation name pool ip)) choice t).1 = .error err →
        A (exec (.createAllocation (newAllocation name pool ip)) choice t).2

/-- What a call has established: `B` for the subnet it returns, and otherwise still `A`. -/
def Obtained (A : σ → Prop) (B : String → σ → Prop) (r : Option (Except GoError String))
    (t : σ) : Prop :=
  (∀ cidr, r = some (.ok cidr) → B cidr t) ∧ ((∀ cidr, r ≠ some (.ok cidr)) → A t)

theorem obtained_of_ne {s : σ} {r : Option (Except GoError String)}
    (hne : ∀ cidr, r ≠ some (.ok cidr)) (hs : A s) : Obtained A B r s :=
  ⟨fun cidr h => absurd h (hne cidr), fun _ => hs⟩

/-- The rule for `AllocateSubnet`. -/
theorem wp_allocateAttempts (h : Caller K exec i name pool F A B)
    (hfind : (findFirstFree pool).Within NetworkCall.Reads fun r => ∀ ip, r = some (.ok ip) → F ip)
    (n : ℕ) {s : σ} (hs : A s) :
    K.wp exec i (allocateAttempts name pool n) (Obtained A B) s := by
  -- on the number of attempts left, none of which has created anything
  induction n generalizing s with
  | zero => exact obtained_of_ne (by simp) hs
  | succ n ih =>
    apply wp_bind.mpr
    apply wp_mono _ (wp_of_within h.stable h.reads hfind hs)
    intro r t hr
    obtain ⟨hfound, ht⟩ := hr
    cases r with
    | none => exact obtained_of_ne (by simp) ht
    | some r =>
      cases r with
      | error err => exact obtained_of_ne (by simp) ht
      | ok ip =>
        have hip : F ip := hfound ip rfl
        apply wp_call A h.stable ht
        intro u hu hinv choice hadm
        obtain ⟨hinv', hguar, hu'⟩ := h.reads .setControllerReference trivial u choice hu hinv hadm
        refine ⟨hinv', hguar, ?_⟩
        cases (exec .setControllerReference choice u).1 with
        | error err => exact obtained_of_ne (by simp) hu'
        | ok _ =>
          apply wp_call A h.stable hu'
          intro v hv hinv choice hadm
          obtain ⟨hinv', hguar, hok, herror⟩ := h.create ip hip v choice hv hinv hadm
          refine ⟨hinv', hguar, ?_⟩
          cases hanswer : (exec (.createAllocation (newAllocation name pool ip)) choice v).1 with
          | ok _ =>
            refine ⟨fun cidr hcidr => ?_, fun hne => absurd rfl (hne _)⟩
            cases hcidr
            exact hok hanswer
          | error err =>
            dsimp only [Program.bind]
            split_ifs
            · exact ih (herror err hanswer)
            · exact obtained_of_ne (by simp) (herror err hanswer)

end Attempts

/-! ## Allocations -/

/-- An allocation of a subnet of the pool, under the name that goes with it. -/
def Issued (net : IPNet) (m : ℕ) (alloc : LatticeSubnetAllocation) : Prop :=
  ∃ a, Subnet net m a ∧ alloc.metadata.key = ⟨"", subnetName (.v4 a)⟩ ∧
    alloc.cidr = prefixText (.v4 a) m

/-- The CIDR determines the object. -/
theorem Issued.key_of_cidr {net' : IPNet} {m' : ℕ} {x y : LatticeSubnetAllocation}
    (hx : Issued net m x) (hy : Issued net' m' y) (h : x.cidr = y.cidr) :
    x.metadata.key = y.metadata.key := by
  obtain ⟨a, -, hkey, hcidr⟩ := hx
  obtain ⟨b, -, hkey', hcidr'⟩ := hy
  rw [hcidr, hcidr'] at h
  have hab : a = b := Option.some.inj (to4_of_prefixText h)
  rw [hkey, hkey', hab]

/-- The prefix that a text denotes contains an address. -/
def Covers (cidr : String) (ip : IP) : Prop :=
  ∃ net, parseCIDR cidr = .ok net ∧ net.contains ip = true

/-- Both texts denote prefixes, and these have no address in common. -/
def DisjointCIDRs (c d : String) : Prop :=
  (∃ net, parseCIDR c = .ok net) ∧ (∃ net, parseCIDR d = .ok net) ∧
    ∀ ip, ¬ (Covers c ip ∧ Covers d ip)

/-- A text denotes a prefix inside another. -/
def CIDRWithin (c d : String) : Prop :=
  (∃ net, parseCIDR c = .ok net) ∧ ∀ ip, Covers c ip → Covers d ip

/-- The addresses of an allocation. -/
theorem covers_prefixText {a : IPv4} (hm : m ≤ 32) :
    Covers (prefixText (.v4 a) m) ip ↔
      ∃ b, ip.to4 = some b ∧ b.toNat / 2 ^ (32 - m) = a.toNat / 2 ^ (32 - m) := by
  rw [← contains_mask_four]
  constructor
  · intro h
    obtain ⟨net, hnet, hcontains⟩ := h
    rw [parseCIDR_prefixText a hm] at hnet
    cases hnet
    exact hcontains
  · intro h
    exact ⟨_, parseCIDR_prefixText a hm, h⟩

/-- Different allocations of one size are disjoint. -/
theorem Issued.disjoint {net' : IPNet} {x y : LatticeSubnetAllocation} (hm : m ≤ 32)
    (hx : Issued net m x) (hy : Issued net' m y) (hne : x.metadata.key ≠ y.metadata.key) :
    DisjointCIDRs x.cidr y.cidr := by
  obtain ⟨a, ha, hkey, hcidr⟩ := hx
  obtain ⟨b, hb, hkey', hcidr'⟩ := hy
  rw [hcidr, hcidr']
  refine ⟨⟨_, parseCIDR_prefixText a hm⟩, ⟨_, parseCIDR_prefixText b hm⟩, fun ip h => hne ?_⟩
  obtain ⟨c, hc, hdiv⟩ := (covers_prefixText hm).mp h.1
  obtain ⟨c', hc', hdiv'⟩ := (covers_prefixText hm).mp h.2
  obtain rfl : c = c' := Option.some.inj (hc.symm.trans hc')
  rw [hkey, hkey', eq_of_aligned ha.aligned hb.aligned hdiv hdiv']

/-- Subnets of the pool lie in it. -/
theorem Subnet.within {a : IPv4} (h : ValidPool pool net m) (ha : Subnet net m a) :
    CIDRWithin (prefixText (.v4 a) m) pool.cidr := by
  refine ⟨⟨_, parseCIDR_prefixText a h.le⟩, fun ip hcovers => ⟨net, h.parses, ?_⟩⟩
  obtain ⟨c, hc, hdiv⟩ := (covers_prefixText h.le).mp hcovers
  obtain ⟨-, b, hbase⟩ := parseCIDR_four h.parses h.four
  have hnet : net = ⟨(IP.v4 b).mask net.ones, net.ones, 32⟩ := by
    rw [← hbase, ← h.four]
  have hinside := ha.inside
  rw [hnet, contains_mask_four] at hinside ⊢
  obtain ⟨a', ha', hin⟩ := hinside
  cases ha'
  exact ⟨c, hc, div_of_longer h.fits h.le hin hdiv⟩

/-- And so do the allocations. -/
theorem Issued.within {x : LatticeSubnetAllocation} (h : ValidPool pool net m)
    (hx : Issued net m x) : CIDRWithin x.cidr pool.cidr := by
  obtain ⟨a, ha, -, hcidr⟩ := hx
  rw [hcidr]
  exact ha.within h

end Wireflow.Controller
