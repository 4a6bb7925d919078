/-
# Which address is allocated

`AllocateIP` walks through the addresses of a network, from the base plus two to the one before the
broadcast address, and creates an endpoint for each that was not listed, until a creation succeeds.
Other clients claim and release addresses meanwhile as they like, so every call is served in a
cluster of its own.

`allocation_scans` says what the walk can end with. The bounds are computed with 32-bit additions,
and for prefixes up to 30 they do not wrap around.
-/

import Wireflow.Controller.Ipam
import Wireflow.Go.Prefix

namespace Wireflow.Controller

open Go.Net List
open Semantics Program
open Wireflow.Api

/-- A call that was served, in the cluster as it was then. -/
structure Served where
  call : Call
  world : World
  answer : call.Res

def Served.creates (t : Served) : Bool :=
  match t.call with
  | .createEndpoint _ => true
  | _ => false

/-- Calls are recorded. Each finds what other clients have made of the cluster by then. -/
def serveAmong (worlds : ℕ → World) (choices : ℕ → Choice) (c : Call) (log : List Served) :
    c.Res × List Served :=
  let answer := (exec c (choices log.length) (worlds log.length)).1
  (answer, log ++ [⟨c, worlds log.length, answer⟩])

/-- The address was listed, or its endpoint was reported to exist. -/
def Occupied (peer : LatticePeer) (used : List String) (log : List Served) (b : ℕ) : Prop :=
  leaseName (.v4 (.ofNat 32 b)) ∈ used ∨ ∃ w err, err.kind = .alreadyExists ∧
    ⟨.createEndpoint (newEndpoint peer (.ofNat 32 b)), w, .error err⟩ ∈ log

/-- What a walk over the addresses from `first` up to `last`, which is not tried, can end with. -/
structure Scan (network : LatticeNetwork) (peer : LatticePeer) (used : List String)
    (log : List Served) (first last : ℕ) (result : Except GoError String) : Prop where
  few : log.countP Served.creates ≤ last - first
  /-- The address was free when it was claimed, and is the first that is not occupied. -/
  found : ∀ text, result = .ok text → ∃ b, first ≤ b ∧ b < last ∧
    text = ipv4String (.ofNat 32 b) ∧
    (∃ w, w.store.endpoints.get (newEndpoint peer (.ofNat 32 b)).metadata.key = none ∧
      ⟨.createEndpoint (newEndpoint peer (.ofNat 32 b)), w, .ok ()⟩ ∈ log) ∧
    ¬Occupied peer used log b ∧ ∀ c, first ≤ c → c < b → Occupied peer used log c
  /-- A call has failed, or all addresses were occupied. -/
  failed : ∀ err, result = .error err → (∃ w, ⟨.setControllerReference, w, .error err⟩ ∈ log) ∨
    (err.kind ≠ .alreadyExists ∧ ∃ ep w, ⟨.createEndpoint ep, w, .error err⟩ ∈ log) ∨
      err.text = "no available IP addresses in network " ++ network.metadata.name ∧
        ∀ c, first ≤ c → c < last → Occupied peer used log c

variable {network : LatticeNetwork} {peer : LatticePeer} {used : List String}
  {first last next : ℕ} {log : List Served}

theorem Occupied.append {b : ℕ} (h : Occupied peer used log b) (new : List Served) :
    Occupied peer used (log ++ new) b :=
  h.imp_right fun ⟨w, err, hkind, hmem⟩ => ⟨w, err, hkind, mem_append_left _ hmem⟩

/-- The walk has come to the address `next`. -/
structure Reached (peer : LatticePeer) (used : List String) (log : List Served)
    (first next : ℕ) : Prop where
  le : first ≤ next
  few : log.countP Served.creates ≤ next - first
  before : ∀ t ∈ log, ∀ ep, t.call = .createEndpoint ep →
    ∃ b < next, ep = newEndpoint peer (.ofNat 32 b)
  occupied : ∀ c, first ≤ c → c < next → Occupied peer used log c

section

variable (h : Reached peer used log first next)

include h

theorem Reached.other {t : Served}
    (ht : t.creates = false) : Reached peer used (log ++ [t]) first next where
  le := h.le
  few := by
    rw [countP_append, countP_singleton, ht]
    exact h.few
  before := by
    intro t' hmem ep hep
    rcases mem_append.mp hmem with hmem | hmem
    · exact h.before t' hmem ep hep
    · obtain rfl := mem_singleton.mp hmem
      simp [Served.creates, hep] at ht
  occupied c hc hlt := (h.occupied c hc hlt).append [t]

theorem Reached.countP_snoc (hlt : next < last)
    (t : Served) : (log ++ [t]).countP Served.creates ≤ last - first := by
  have := h.le
  have := h.few
  have : [t].countP Served.creates ≤ 1 := countP_le_length
  rw [countP_append]
  omega

/-- The next address is occupied as well. -/
theorem Reached.succ (new : List Served)
    (hcount : new.countP Served.creates ≤ 1)
    (hnew : ∀ t ∈ new, ∀ ep, t.call = .createEndpoint ep → ep = newEndpoint peer (.ofNat 32 next))
    (hoccupied : Occupied peer used (log ++ new) next) :
    Reached peer used (log ++ new) first (next + 1) := by
  have := h.le
  have := h.few
  refine ⟨by omega, by rw [countP_append]; omega, fun t ht ep hep => ?_, fun c hc hlt => ?_⟩
  · rcases mem_append.mp ht with ht | ht
    · obtain ⟨b, hb, rfl⟩ := h.before t ht ep hep
      exact ⟨b, by omega, rfl⟩
    · exact ⟨next, by omega, hnew t ht ep hep⟩
  · rcases Nat.lt_or_eq_of_le (Nat.lt_succ_iff.mp hlt) with hlt | rfl
    · exact (h.occupied c hc hlt).append new
    · exact hoccupied

/-- An address that was not tried before and was created is not occupied. -/
theorem Reached.not_occupied (hnext : next < 2 ^ 32)
    {new : List Served} (hfree : leaseName (.v4 (.ofNat 32 next)) ∉ used)
    (hnew : ∀ ep w err, ⟨.createEndpoint ep, w, .error err⟩ ∉ new) :
    ¬Occupied peer used (log ++ new) next := by
  rintro (hused | ⟨w, err, -, hmem⟩)
  · exact hfree hused
  · rcases mem_append.mp hmem with hmem | hmem
    · obtain ⟨b, hb, heq⟩ := h.before _ hmem _ rfl
      have hvalue := congrArg BitVec.toNat
        (ipv4String_injective (congrArg LatticeEndpoint.address heq))
      rw [BitVec.toNat_ofNat, BitVec.toNat_ofNat] at hvalue
      omega
    · exact hnew _ _ _ hmem

end

variable (worlds : ℕ → World) (choices : ℕ → Choice)

theorem run_issue {c : Call} {answer : c.Res}
    (h : (exec c (choices log.length) (worlds log.length)).1 = answer) :
    (issue c).run (serveAmong worlds choices) log =
      (answer, log ++ [⟨c, worlds log.length, answer⟩]) := by
  subst h
  rfl

theorem scan_claimFrom (hlast : last ≤ 2 ^ 32) (n : ℕ) (hn : next + n = last)
    (h : Reached peer used log first next) :
    Scan network peer used
      ((claimFrom network peer used n (.ofNat 32 next)).run (serveAmong worlds choices) log).2
      first last
      ((claimFrom network peer used n (.ofNat 32 next)).run (serveAmong worlds choices) log).1 := by
  induction n generalizing next log with
  | zero =>
    subst hn
    refine ⟨h.few, nofun, ?_⟩
    rintro _ ⟨⟩
    exact .inr (.inr ⟨rfl, h.occupied⟩)
  | succ n ih =>
    have hnext : BitVec.ofNat 32 next + 1 = BitVec.ofNat 32 (next + 1) := by
      rw [BitVec.ofNat_add]
      rfl
    unfold claimFrom
    rw [hnext]
    split_ifs with hused
    · have hreached := h.succ [] (Nat.zero_le _)
        (fun t ht => absurd ht not_mem_nil) (.inl hused)
      rw [append_nil] at hreached
      exact ih (by omega) hreached
    · have hlt : next < last := by omega
      rw [run_bind, Client.setControllerReference]
      cases href : (exec .setControllerReference (choices log.length) (worlds log.length)).1 with
      | error err =>
        rw [run_issue worlds choices href]
        refine ⟨h.countP_snoc hlt _, nofun, ?_⟩
        rintro _ ⟨⟩
        exact .inl ⟨_, mem_append_right _ (mem_singleton_self _)⟩
      | ok _ =>
        rw [run_issue worlds choices href]
        have h' := h.other (t := ⟨.setControllerReference, worlds log.length, .ok ()⟩) rfl
        revert h'
        generalize log ++ [_] = log'
        intro h'
        rw [run_bind, Client.createEndpoint]
        cases hcreate : (exec (.createEndpoint (newEndpoint peer (.ofNat 32 next)))
            (choices log'.length) (worlds log'.length)).1 with
        | ok _ =>
          rw [run_issue worlds choices hcreate]
          refine ⟨h'.countP_snoc hlt _, ?_, nofun⟩
          rintro _ ⟨⟩
          refine ⟨next, h'.le, hlt, rfl, ?_, ?_, ?_⟩
          · exact ⟨_, (createEndpoint_ok _ _ hcreate).1,
              mem_append_right _ (mem_singleton_self _)⟩
          · exact h'.not_occupied (hlt.trans_le hlast) hused (by simp)
          · exact fun c hc hlt => (h'.occupied c hc hlt).append _
        | error err =>
          rw [run_issue worlds choices hcreate]
          dsimp only
          split_ifs with hkind
          · refine ih (by omega) (h'.succ [_] (Nat.le_refl _) ?_ (.inr ?_))
            · intro t ht ep hep
              obtain rfl := mem_singleton.mp ht
              cases hep
              rfl
            · exact ⟨_, err, hkind, mem_append_right _ (mem_singleton_self _)⟩
          · refine ⟨h'.countP_snoc hlt _, nofun, ?_⟩
            rintro _ ⟨⟩
            exact .inr (.inl ⟨hkind, _, _, mem_append_right _ (mem_singleton_self _)⟩)

/-! ## The bounds of the walk -/

/-- The 32-bit bounds of the walk do not wrap around. -/
theorem bounds_of_parseCIDR {s : String} {net : IPNet} (hparse : parseCIDR s = .ok net)
    (hbits : net.bits = 32) (hones : net.ones ≤ 30) :
    2 ^ 2 ≤ 2 ^ (32 - net.ones) ∧
      (ipToUint32 net.base).toNat + 2 ^ (32 - net.ones) ≤ 2 ^ 32 ∧
      (startAddr net).toNat = (ipToUint32 net.base).toNat + 2 ∧
      (endAddr net).toNat + 1 = (ipToUint32 net.base).toNat + 2 ^ (32 - net.ones) - 1 := by
  obtain ⟨hle, a, hbase⟩ := parseCIDR_four hparse hbits
  have hroom := mask_add_le a hle
  rw [← toNat_mask] at hroom
  have hbase' : ipToUint32 net.base =
      BitVec.ofNat 32 (a.toNat / 2 ^ (32 - net.ones) * 2 ^ (32 - net.ones)) := by
    rw [hbase]
    rfl
  rw [startAddr, endAddr, hbase', hbits]
  generalize BitVec.ofNat 32 (a.toNat / _ * _) = base at hroom ⊢
  have hfour : 2 ^ 2 ≤ 2 ^ (32 - net.ones) := Nat.pow_le_pow_right (by decide) (by omega)
  generalize 2 ^ (32 - net.ones) = size at hroom hfour ⊢
  have htwo : (2 : IPv4).toNat = 2 := rfl
  refine ⟨hfour, hroom, ?_, ?_⟩
  · rw [BitVec.toNat_add, htwo]
    omega
  · rw [BitVec.toNat_sub, BitVec.toNat_add, BitVec.toNat_ofNat, htwo]
    omega

/-- An allocation for a peer without an endpoint creates at most one endpoint for each address
between the gateway and the broadcast address, whatever other clients do meanwhile. The address it
returns was free and is the smallest that was neither listed nor reported to exist, and it reports
exhaustion only if there is no such address. -/
theorem allocation_scans {net : IPNet} {existing : List LatticeEndpoint}
    (hparse : parseCIDR network.activeCIDR = .ok net) (hbits : net.bits = 32)
    (hones : net.ones ≤ 30)
    (hlist : (exec (.listEndpoints peer.metadata.ns) (choices 0) (worlds 0)).1 = .ok existing)
    (hown : ∀ ep ∈ existing, ep.peerRef ≠ peer.metadata.name) :
    let base := (ipToUint32 net.base).toNat
    let r := (allocateIP network peer).run (serveAmong worlds choices) []
    r.2.countP Served.creates ≤ 2 ^ (32 - net.ones) - 3 ∧
      Scan network peer (existing.map (·.metadata.name)) r.2 (base + 2)
        (base + 2 ^ (32 - net.ones) - 1) r.1 := by
  obtain ⟨hsize, hroom, hstart, hend⟩ := bounds_of_parseCIDR hparse hbits hones
  intro base r
  have hscan : Scan network peer (existing.map (·.metadata.name)) r.2 (base + 2)
      (base + 2 ^ (32 - net.ones) - 1) r.1 := by
    have hfind : (existing.find? fun ep => ep.peerRef == peer.metadata.name) = none := by
      simpa using hown
    have hfirst : startAddr net = .ofNat 32 (base + 2) := by
      rw [← hstart, BitVec.ofNat_toNat, BitVec.setWidth_eq]
    have hnone : Reached peer (existing.map (·.metadata.name)) [] (base + 2) (base + 2) := by
      refine ⟨le_rfl, Nat.zero_le _, ?_, by omega⟩
      exact fun t ht => absurd ht not_mem_nil
    simp only [r, allocateIP, hparse]
    rw [run_bind, Client.listEndpoints, run_issue worlds choices hlist]
    dsimp only
    rw [hfind, hend, hstart, hfirst]
    exact scan_claimFrom worlds choices (by omega) _ (by omega) (hnone.other rfl)
  exact ⟨hscan.few.trans (by omega), hscan⟩

/-- In an empty cluster, a network with one address for peers. -/
theorem allocation_scans_slash30 :
    let network : LatticeNetwork := { metadata := { name := "net" }, activeCIDR := "10.0.0.0/30" }
    let peer : LatticePeer := { metadata := { name := "p" } }
    let r := (allocateIP network peer).run (serveAmong (fun _ => {}) fun _ => {}) []
    r.2.countP Served.creates ≤ 1 ∧ Scan network peer [] r.2 0x0a000002 0x0a000003 r.1 := by
  intro network peer
  have hparse : parseCIDR network.activeCIDR = .ok ⟨.v4 0x0a000000, 30, 32⟩ := by decide +kernel
  have hlist : (exec (.listEndpoints peer.metadata.ns) {} {}).1 = .ok [] := rfl
  exact allocation_scans (fun _ => {}) (fun _ => {}) hparse rfl le_rfl hlist nofun

end Wireflow.Controller
