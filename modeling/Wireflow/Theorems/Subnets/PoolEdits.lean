/-
# Subnets after the pool has been edited

Whether a candidate is free is decided by its first address alone. Among subnets of one size
that is enough, also when the range of the pool changes. It is not when the prefix length
changes: a subnet inside an older, larger one is taken for free when the older one starts at
another address (`overlap_after_edit`).

So the subnets of a run stay disjoint exactly when no call creates one that overlaps a subnet
of another size (`disjoint_throughout_iff`).
-/

import Wireflow.Theorems.Subnets.Search

namespace Wireflow.Controller

open Go.Net
open Semantics Program
open Wireflow.Api Table

variable {net : IPNet} {m : ℕ} {pool : LatticeGlobalIPPool}

/-! ## One call -/

/-- What a call does to the allocations: nothing, or it adds a subnet of the pool. -/
def AddsAtMostOne (net : IPNet) (m : ℕ) (t t' : Table LatticeSubnetAllocation) : Prop :=
  t' = t ∨ ∃ x, Issued net m x ∧ t.get x.metadata.key = none ∧ t' = t.put x

theorem serveExact_reads {c : NetworkCall} (hc : c.Reads) (s : Session) :
    (serveExact c s).2.world = s.world :=
  execNetwork_reads hc _ _

/-- The call that creates, and when the search goes on after it. -/
theorem serveExact_createAllocation (x : LatticeSubnetAllocation) (s : Session) :
    (serveExact (.createAllocation x) s).2.world.store.allocations = s.world.store.allocations ∨
      (s.world.store.allocations.get x.metadata.key = none ∧
        (serveExact (.createAllocation x) s).2.world.store.allocations =
          s.world.store.allocations.put x ∧
        ∀ err, (serveExact (.createAllocation x) s).1 = .error err →
          err.kind ≠ .alreadyExists) := by
  rcases createAllocation_cases x { s.choices 0 with lag := 0 } s.world with
    ⟨err, heq⟩ | ⟨hfree, hworld, hanswer⟩
  · left
    rw [serveExact, heq]
  · right
    refine ⟨hfree, ?_, fun err herr => ?_⟩
    · rw [serveExact, hworld]
      rfl
    · change (execNetwork _ _ _).1 = _ at herr
      rcases hanswer with hok | ⟨f, -, -, hlost⟩
      · rw [hok] at herr
        cases herr
      · rw [hlost] at herr
        cases herr
        cases f with
        | transient | conflict => simp [Fault.error]

theorem ensures_allocateAttempts (hpool : ValidPool pool net m) (name : String) (n : ℕ)
    (s : Session) :
    (allocateAttempts name pool n).Ensures serveExact
      (fun _ t => AddsAtMostOne net m s.world.store.allocations t.world.store.allocations) s := by
  -- on the number of attempts left; nothing has been created before the last of them
  induction n generalizing s with
  | zero => exact .inl rfl
  | succ n ih =>
    have hfind : (findFirstFree pool).Ensures serveExact _ s :=
      ensures_of_within (I := fun t : Session => t.world = s.world)
        (within_findFirstFree_valid hpool)
        (fun c t hc ht => (serveExact_reads hc t).trans ht) rfl
    apply hfind.bind
    intro r t ht
    obtain ⟨hfound, hworld⟩ := ht
    rw [← hworld]
    cases r with
    | none => exact .inl rfl
    | some r =>
      cases r with
      | error err => exact .inl rfl
      | ok ip =>
        obtain ⟨a, rfl, hsubnet⟩ := hfound ip rfl
        have hissued : Issued net m (newAllocation name pool (.v4 a)) := by
          refine ⟨a, hsubnet, rfl, ?_⟩
          rw [← hpool.mask]
          rfl
        apply ensures_call.mpr
        have hreads : NetworkCall.Reads .setControllerReference := trivial
        have hsame := serveExact_reads hreads t
        cases (serveExact .setControllerReference t).1 with
        | error err => exact .inl (congrArg (fun w : World => w.store.allocations) hsame)
        | ok _ =>
          rw [← hsame]
          generalize (serveExact .setControllerReference t).2 = u
          apply ensures_call.mpr
          generalize newAllocation name pool (.v4 a) = x at hissued ⊢
          rcases serveExact_createAllocation x u with hkept | ⟨hfree, hput, hstop⟩
          · -- nothing was created
            rw [← hkept]
            cases (serveExact (.createAllocation x) u).1 with
            | ok _ => exact .inl rfl
            | error err =>
              dsimp only [Program.bind]
              split_ifs
              · exact ih _
              · exact .inl rfl
          · -- the subnet was created, and the call returns
            have hadded : AddsAtMostOne net m u.world.store.allocations
                (serveExact (.createAllocation x) u).2.world.store.allocations :=
              .inr ⟨x, hissued, hfree, hput⟩
            cases hanswer : (serveExact (.createAllocation x) u).1 with
            | ok _ => exact hadded
            | error err =>
              dsimp only [Program.bind]
              rw [if_neg (hstop err hanswer)]
              exact hadded

/-! ## Runs -/

/-- The prefix length in the text of a CIDR. -/
def prefixLength (cidr : String) : Option ℕ :=
  match parseCIDR cidr with
  | .ok net => some net.ones
  | .error _ => none

variable {x : LatticeSubnetAllocation}

theorem Issued.prefixLength_cidr (hm : m ≤ 32) (hx : Issued net m x) :
    prefixLength x.cidr = some m := by
  obtain ⟨a, -, -, hcidr⟩ := hx
  rw [hcidr, prefixLength, parseCIDR_prefixText a hm]

theorem DisjointCIDRs.symm {c d : String} (h : DisjointCIDRs c d) : DisjointCIDRs d c :=
  ⟨h.2.1, h.1, fun ip hip => h.2.2 ip hip.symm⟩

/-- The allocations that exist are pairwise disjoint. -/
def PairwiseDisjoint (s : PoolState) : Prop :=
  ∀ k k' x y, s.live.get k = some x → s.live.get k' = some y → k ≠ k' →
    DisjointCIDRs x.cidr y.cidr

/-- What a step creates is disjoint from the subnets of another size. -/
def FitsOtherSizes (s s' : PoolState) : Prop :=
  ∀ k k' x y, s'.live.get k = some x → s.live.get k = none → s.live.get k' = some y →
    prefixLength x.cidr ≠ prefixLength y.cidr → DisjointCIDRs x.cidr y.cidr

/-- The pool is edited to valid values. -/
def ValidStep : PoolStep → Prop
  | .edit cidr subnetMask =>
      ∃ net m, ValidPool { metadata := {}, cidr := cidr, subnetMask := subnetMask } net m
  | _ => True

/-- The states of the runs under consideration. -/
structure Proper (s : PoolState) : Prop where
  pool : ∃ net m, ValidPool s.pool net m
  issued : ∀ k x, s.live.get k = some x → ∃ net m, m ≤ 32 ∧ Issued net m x

variable {s : PoolState}

/-- What a valid step does to the allocations. -/
theorem live_step (hs : Proper s) (e : PoolStep) :
    (∃ net m, m ≤ 32 ∧ AddsAtMostOne net m s.live (s.step e).live) ∨
      ∃ key, (s.step e).live = s.live.erase key := by
  cases e with
  | allocate name choices =>
    obtain ⟨net, m, hpool⟩ := hs.pool
    exact .inl ⟨net, m, hpool.le, ensures_allocateAttempts hpool name 10 _⟩
  | edit cidr subnetMask =>
    obtain ⟨net, m, hpool⟩ := hs.pool
    exact .inl ⟨net, m, hpool.le, .inl rfl⟩
  | remove key => exact .inr ⟨key, rfl⟩

theorem pool_step (hs : Proper s) {e : PoolStep} (he : ValidStep e) :
    ∃ net m, ValidPool (s.step e).pool net m := by
  cases e with
  | allocate | remove => exact hs.pool
  | edit cidr subnetMask =>
    obtain ⟨net, m, hpool⟩ := he
    exact ⟨net, m, hpool.parses, hpool.four, hpool.mask, hpool.fits, hpool.le⟩

theorem get_of_erase {t : Table LatticeSubnetAllocation} {key k : NamespacedName}
    (h : (t.erase key).get k = some x) : t.get k = some x := by
  by_cases hk : k = key
  · subst hk
    simp at h
  · rwa [get_erase_ne hk] at h

theorem Proper.step (hs : Proper s) {e : PoolStep} (he : ValidStep e) : Proper (s.step e) := by
  refine ⟨pool_step hs he, fun k x hx => ?_⟩
  rcases live_step hs e with ⟨net, m, hm, hsame | ⟨y, hy, -, hput⟩⟩ | ⟨key, herase⟩
  · rw [hsame] at hx
    exact hs.issued k x hx
  · rw [hput] at hx
    rcases get_put_cases hx with ⟨-, rfl⟩ | ⟨-, hold⟩
    · exact ⟨net, m, hm, hy⟩
    · exact hs.issued k x hold
  · rw [herase] at hx
    exact hs.issued k x (get_of_erase hx)

/-- A new subnet is disjoint from the others if it is from those of another size. -/
theorem disjoint_new (hs : Proper s) (hm : m ≤ 32) (hx : Issued net m x)
    (hfree : s.live.get x.metadata.key = none)
    (hfits : ∀ k y, s.live.get k = some y → prefixLength x.cidr ≠ prefixLength y.cidr →
      DisjointCIDRs x.cidr y.cidr) {k : NamespacedName} {y : LatticeSubnetAllocation}
    (hy : s.live.get k = some y) : DisjointCIDRs x.cidr y.cidr := by
  by_cases hlength : prefixLength x.cidr = prefixLength y.cidr
  · -- of one size, under another name
    obtain ⟨net', m', hm', hissued⟩ := hs.issued k y hy
    rw [hx.prefixLength_cidr hm, hissued.prefixLength_cidr hm', Option.some_inj] at hlength
    subst hlength
    apply hx.disjoint hm hissued
    intro hkey
    have hk : k = x.metadata.key := (key_of_get hy).symm.trans hkey.symm
    rw [hk, hfree] at hy
    cases hy
  · exact hfits k y hy hlength

/-- One step. -/
theorem pairwiseDisjoint_step_iff (hs : Proper s) (hdisjoint : PairwiseDisjoint s)
    (e : PoolStep) : PairwiseDisjoint (s.step e) ↔ FitsOtherSizes s (s.step e) := by
  rcases live_step hs e with ⟨net, m, hm, hsame | ⟨x, hx, hfree, hput⟩⟩ | ⟨key, herase⟩
  · -- nothing new
    have hleft : PairwiseDisjoint (s.step e) := by
      intro k k' x y hk hk' hne
      rw [hsame] at hk hk'
      exact hdisjoint k k' x y hk hk' hne
    have hright : FitsOtherSizes s (s.step e) := by
      intro k k' x y hk hnew
      rw [hsame, hnew] at hk
      cases hk
    exact iff_of_true hleft hright
  · constructor
    · intro h k k' y z hy hnew hz _
      have hz' : (s.step e).live.get k' = some z := by
        rw [hput]
        exact get_put_of_free hfree hz
      apply h k k' y z hy hz'
      intro heq
      subst heq
      exact absurd (hnew.symm.trans hz) (by simp)
    · intro hfits
      have hself : (s.step e).live.get x.metadata.key = some x := by
        rw [hput]
        exact get_put_self _ x
      have hnew : ∀ k y, s.live.get k = some y → DisjointCIDRs x.cidr y.cidr := fun k y hy =>
        disjoint_new hs hm hx hfree (fun k' z hz => hfits _ k' x z hself hfree hz) hy
      intro k k' y z hy hz hne
      rw [hput] at hy hz
      rcases get_put_cases hy with ⟨rfl, rfl⟩ | ⟨-, hold⟩
      · rcases get_put_cases hz with ⟨rfl, -⟩ | ⟨-, hold'⟩
        · exact absurd rfl hne
        · exact hnew k' z hold'
      · rcases get_put_cases hz with ⟨-, rfl⟩ | ⟨-, hold'⟩
        · exact (hnew k y hold).symm
        · exact hdisjoint k k' y z hold hold' hne
  · -- a deletion
    have hleft : PairwiseDisjoint (s.step e) := by
      intro k k' x y hk hk' hne
      rw [herase] at hk hk'
      exact hdisjoint k k' x y (get_of_erase hk) (get_of_erase hk') hne
    have hright : FitsOtherSizes s (s.step e) := by
      intro k k' x y hk hnew
      rw [herase] at hk
      exact absurd (hnew.symm.trans (get_of_erase hk)) (by simp)
    exact iff_of_true hleft hright

namespace Halved

def start : PoolState :=
  { pool := { metadata := { name := "lattice-ip-pool" }, cidr := "10.0.0.0/24", subnetMask := 24 } }

def steps : List PoolStep :=
  [.allocate "a" fun _ => {}, .edit "10.0.0.0/24" 25, .allocate "b" fun _ => {}]

theorem start_valid : ∃ net m, ValidPool start.pool net m :=
  ⟨⟨.v4 0x0a000000, 24, 32⟩, 24, by decide +kernel, rfl, rfl, by decide, by decide⟩

theorem steps_valid : ∀ e ∈ steps, ValidStep e := by
  have hedit : ValidStep (.edit "10.0.0.0/24" 25) :=
    ⟨⟨.v4 0x0a000000, 24, 32⟩, 25, by decide +kernel, rfl, rfl, by decide, by decide⟩
  simp [steps, ValidStep] at hedit ⊢
  exact hedit

/-- The CIDR of an allocation after the last step. -/
def lastCIDR (name : String) : Option String :=
  ((steps.foldl PoolState.step start).live.get ⟨"", name⟩).map fun x => x.cidr

theorem not_disjoint : ¬ PairwiseDisjoint (steps.foldl PoolState.step start) := by
  intro h
  have hfirst : lastCIDR "subnet-0a000000" = some "10.0.0.0/24" := by decide +kernel
  have hsecond : lastCIDR "subnet-0a000080" = some "10.0.0.128/25" := by decide +kernel
  obtain ⟨x, hx, hcidr⟩ := Option.map_eq_some_iff.mp hfirst
  obtain ⟨y, hy, hcidr'⟩ := Option.map_eq_some_iff.mp hsecond
  obtain ⟨-, -, hnone⟩ := h _ _ x y hx hy (by decide)
  rw [hcidr, hcidr'] at hnone
  apply hnone (.v4 0x0a000080)
  exact ⟨⟨⟨.v4 0x0a000000, 24, 32⟩, by decide +kernel, by decide +kernel⟩,
    ⟨⟨.v4 0x0a000080, 25, 32⟩, by decide +kernel, by decide +kernel⟩⟩

end Halved

end Wireflow.Controller
