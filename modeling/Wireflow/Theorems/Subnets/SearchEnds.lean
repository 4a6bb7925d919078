/-
# When the search for a free subnet ends

`FindFirstFree` goes from candidate to candidate by adding `1 << (32 - uint32(SubnetMask))` in
32 bits. For a mask that is 0, negative or above 32 this adds nothing, and the loop stays at the
first address of the pool once that is taken. In a pool of all addresses the candidates wrap
around, and when all of them are taken the loop goes round forever. A mask shorter than the
prefix of the pool gives a subnet that reaches out of it.

In all other pools the search ends and finds subnets of the pool, whatever is allocated.
-/

import Wireflow.Theorems.Subnets.Search

namespace Wireflow.Controller

open Go.Net
open Go.Strings
open Semantics Program
open Wireflow.Api

/-- What `FindFirstFree` owes: it ends, and the address it returns with the mask of the pool is a
valid CIDR inside the pool. -/
def Settles (pool : LatticeGlobalIPPool) (r : Option (Except GoError IP)) : Prop :=
  ∃ answer, r = some answer ∧
    ∀ ip, answer = .ok ip → CIDRWithin (prefixText ip pool.subnetMask) pool.cidr

variable {pool : LatticeGlobalIPPool} {net : IPNet} {m : ℕ} {a : IPv4}

/-! ## The search ends -/

theorem ValidPool.candidate (h : ValidPool pool net m) (hbase : net.base = .v4 a) (k : ℕ) :
    (fun x => nextSubnet x pool.subnetMask)^[k] net.base =
      .v4 (a + BitVec.ofNat 32 (k * 2 ^ (32 - m))) := by
  induction k with
  | zero => simp [hbase]
  | succ k ih =>
    rw [Function.iterate_succ_apply', ih, nextSubnet, h.mask, subnetStep_of_le h.le, Nat.succ_mul,
      BitVec.ofNat_add, ← BitVec.add_assoc]
    rfl

/-- The candidate one pool size after the first is outside, unless it is the first again. -/
theorem ValidPool.leaves (h : ValidPool pool net m) (hones : 1 ≤ net.ones) :
    ∃ k < searchBound,
      net.contains ((fun x => nextSubnet x pool.subnetMask)^[k] net.base) = false := by
  obtain ⟨hle, b, hbase⟩ := parseCIDR_four h.parses h.four
  have hnet : net = ⟨(IP.v4 b).mask net.ones, net.ones, 32⟩ := by
    rw [← hbase, ← h.four]
  have hm := h.le
  have hfits := h.fits
  refine ⟨2 ^ (m - net.ones), ?_, ?_⟩
  · have hpow : 2 ^ (m - net.ones) ≤ 2 ^ 32 := Nat.pow_le_pow_right (by decide) (by omega)
    rw [searchBound]
    omega
  · have hsize : 2 ^ (m - net.ones) * 2 ^ (32 - m) = 2 ^ (32 - net.ones) := by
      rw [← pow_add]
      congr 1
      omega
    rw [h.candidate hbase, hsize, Bool.eq_false_iff, hnet, Ne, contains_mask_four]
    rintro ⟨c, hc, hdiv⟩
    cases hc
    have hall : 2 ^ 32 = 2 ^ net.ones * 2 ^ (32 - net.ones) := by
      rw [← pow_add]
      congr 1
      omega
    have hpos := Nat.two_pow_pos (32 - net.ones)
    -- in units of the pool: one more than the pool's number, modulo the number of pools
    rw [BitVec.toNat_add, toNat_mask, BitVec.toNat_ofNat, Nat.add_mod_mod, ← Nat.succ_mul, hall,
      Nat.mul_mod_mul_right, Nat.mul_div_cancel _ hpos] at hdiv
    have htwo : 2 ^ 1 ≤ 2 ^ net.ones := Nat.pow_le_pow_right (by decide) hones
    rcases Nat.lt_or_ge (b.toNat / 2 ^ (32 - net.ones) + 1) (2 ^ net.ones) with hlt | hge
    · rw [Nat.succ_eq_add_one, Nat.mod_eq_of_lt hlt] at hdiv
      omega
    · have hlast : b.toNat / 2 ^ (32 - net.ones) + 1 = 2 ^ net.ones := by omega
      rw [Nat.succ_eq_add_one, hlast, Nat.mod_self] at hdiv
      omega

theorem settles_of_valid (h : ValidPool pool net m) (hones : 1 ≤ net.ones) :
    (findFirstFree pool).Within NetworkCall.Reads (Settles pool) := by
  unfold findFirstFree
  rw [h.parses]
  refine ⟨trivial, fun r => ?_⟩
  cases r with
  | error err => exact ⟨_, rfl, nofun⟩
  | ok items =>
    cases hsearch : search net (items.map fun a => trimStart a.metadata.name "subnet-")
      pool.subnetMask searchBound net.base with
    | none =>
      obtain ⟨k, hk, hout⟩ := h.leaves hones
      exact absurd (search_eq_none_iff.mp hsearch k hk).1 (by simp [hout])
    | some answer =>
      refine within_ret ⟨answer, hsearch, fun ip hip => ?_⟩
      obtain ⟨a, rfl, ha⟩ := h.subnet_of_search (hip ▸ hsearch)
      rw [h.mask]
      exact ha.within h

/-! ## Only in such pools -/

section Only

variable (hparse : parseCIDR pool.cidr = .ok net) (hfour : net.bits = 32)
  (h : (findFirstFree pool).Within NetworkCall.Reads (Settles pool))

include hparse h

/-- Whatever the list of allocations, the search settles. -/
theorem settles_search (items : List LatticeSubnetAllocation) :
    Settles pool (search net (items.map fun a => trimStart a.metadata.name "subnet-")
      pool.subnetMask searchBound net.base) := by
  unfold findFirstFree at h
  rw [hparse] at h
  exact h.2 (.ok items)

include hfour

/-- With nothing allocated the first address of the pool is returned. -/
theorem fits_of_settles : ∃ m, ValidPool pool net m := by
  obtain ⟨hle, b, hbase⟩ := parseCIDR_four hparse hfour
  have hnet : net = ⟨(IP.v4 b).mask net.ones, net.ones, 32⟩ := by rw [← hbase, ← hfour]
  have hfirst : net.contains net.base = true := by
    rw [hnet, contains_mask_four, IP.mask]
    exact ⟨_, rfl, by rw [toNat_mask, Nat.mul_div_cancel _ (Nat.two_pow_pos _)]⟩
  have hsearch : search net [] pool.subnetMask searchBound net.base = some (.ok net.base) := by
    rw [searchBound, search, if_pos hfirst, if_neg List.not_mem_nil]
  obtain ⟨answer, hanswer, hwithin⟩ := settles_search hparse h []
  rw [List.map_nil, hsearch, Option.some_inj] at hanswer
  obtain ⟨⟨net', hnet'⟩, hcovers⟩ := hwithin net.base hanswer.symm
  rw [hbase, IP.mask] at hnet' hcovers
  generalize BitVec.ofNat 32 _ = first at hnet' hcovers
  rcases parseCIDR_prefixText_cases first pool.subnetMask with
    ⟨m, hmask, hm, -⟩ | ⟨-, text, htext⟩
  · refine ⟨m, hparse, hfour, hmask, ones_le_of_inside (a := first) (b := b) hle ?_, hm⟩
    intro c hc
    rw [hmask] at hcovers
    obtain ⟨net', hnet', hin⟩ := hcovers (.v4 c) ((covers_prefixText hm).mpr ⟨c, rfl, hc⟩)
    rw [hparse] at hnet'
    cases hnet'
    rw [hnet, contains_mask_four] at hin
    obtain ⟨c', hc', hin⟩ := hin
    cases hc'
    exact hin
  · rw [hnet'] at htext
    cases htext

/-- In a pool of all addresses the search goes round forever once all subnets are taken. -/
theorem ones_pos_of_settles : 1 ≤ net.ones := by
  by_contra hzero
  obtain ⟨m, hvalid⟩ := fits_of_settles hparse hfour h
  obtain ⟨-, b, hbase⟩ := parseCIDR_four hparse hfour
  have hnet : net = ⟨(IP.v4 b).mask 0, 0, 32⟩ := by
    rw [← hfour, ← Nat.lt_one_iff.mp (not_le.mp hzero), ← hbase]
  obtain ⟨answer, hanswer, -⟩ := settles_search hparse h
    ((Finset.univ : Finset (Fin (2 ^ 32))).toList.map fun a =>
      newAllocation "" pool (.v4 (BitVec.ofFin a)))
  rw [search_eq_none_iff.mpr fun k _ => ?_] at hanswer
  · cases hanswer
  · obtain ⟨a, ha, -⟩ := hvalid.candidates k
    rw [ha]
    constructor
    · rw [hnet, contains_mask_four]
      exact ⟨a, rfl, by rw [Nat.div_eq_of_lt a.isLt, Nat.div_eq_of_lt b.isLt]⟩
    · rw [List.map_map, List.mem_map]
      refine ⟨a.toFin, by simp, ?_⟩
      apply trimStart_append

end Only

/-- **The subnet search ends inside the pool**, whatever is allocated, exactly when the pool has a
prefix of at least one bit and the mask lies between that prefix and 32. -/
theorem subnet_search_iff (pool : LatticeGlobalIPPool) (net : IPNet)
    (hparse : parseCIDR pool.cidr = .ok net) (hfour : net.bits = 32) :
    (findFirstFree pool).Within NetworkCall.Reads (Settles pool) ↔
      1 ≤ net.ones ∧ net.ones ≤ pool.subnetMask ∧ pool.subnetMask ≤ 32 := by
  constructor
  · intro h
    obtain ⟨m, hvalid⟩ := fits_of_settles hparse hfour h
    have hfits := hvalid.fits
    have hle := hvalid.le
    rw [hvalid.mask]
    exact ⟨ones_pos_of_settles hparse hfour h, by omega, by omega⟩
  · intro h
    obtain ⟨hones, hfits, hle⟩ := h
    exact settles_of_valid (m := pool.subnetMask.toNat)
      ⟨hparse, hfour, by omega, by omega, by omega⟩ hones

/-- A pool of the given mask. -/
def slash8 (mask : ℤ) : LatticeGlobalIPPool :=
  { metadata := { name := "pool" }, cidr := "10.0.0.0/8", subnetMask := mask }

/-- With a mask of 0, and the first address taken, no number of rounds ends the search. -/
theorem maskless_search_never_ends : parseCIDR (slash8 0).cidr = .ok ⟨.v4 0x0a000000, 8, 32⟩ ∧
    ∀ n, search ⟨.v4 0x0a000000, 8, 32⟩ [trimStart "subnet-0a000000" "subnet-"]
      (slash8 0).subnetMask n (.v4 0x0a000000) = none := by
  refine ⟨by decide +kernel, fun n => search_eq_none_iff.mpr fun k _ => ?_⟩
  have hstays : nextSubnet (.v4 0x0a000000) (slash8 0).subnetMask = .v4 0x0a000000 := by decide
  rw [Function.iterate_fixed hstays]
  exact ⟨by decide, by decide +kernel⟩

theorem subnet_search_slash8 :
    (findFirstFree (slash8 24)).Within NetworkCall.Reads (Settles (slash8 24)) :=
  (subnet_search_iff _ ⟨.v4 0x0a000000, 8, 32⟩ (by decide +kernel) rfl).mpr (by decide)

end Wireflow.Controller
