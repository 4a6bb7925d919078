/-
# Whom a peer connects to

`GetComputedPeers` walks the policies that apply to the current peer and collects
every peer that some selector of an egress or ingress rule matches. The action of
a policy is not looked at.

The source drops the error of `LabelSelectorAsSelector` and calls `Matches` on the
nil selector it got, which panics; the panic surfaces as an error of the reconcile.
With valid selectors the result is described by `mem_getComputedPeers`.
-/

import Wireflow.Controller.Utils
import Wireflow.Semantics.Loops

namespace Wireflow.Controller

open Go (GoMap)
open Semantics
open Wireflow.Api Wireflow.Infra

/-- The error the controller runtime makes of a nil-pointer panic. -/
def nilPanic : GoError :=
  { kind := .panic
    text := "panic: runtime error: invalid memory address or nil pointer dereference [recovered]" }

/-- `selector, _ := LabelSelectorAsSelector(s); selector.Matches(labels)`. -/
def selects (lib : SelectorLibrary) (selector : Option LabelSelector) (labels : Labels) :
    Except GoError Bool :=
  match lib.labelSelectorAsSelector selector with
  | .ok sel => .ok (sel labels)
  | .error _ => .error nilPanic

/-- `matchLabels`. -/
def matchLabels (lib : SelectorLibrary) (current : Infra.Peer) (peerSelector : LabelSelector) :
    Except GoError Bool :=
  selects lib (some peerSelector) current.labels

/-- `resolveSelectionToPeers`. The selector is built anew for each peer, so with no
peers at all even an invalid one does no harm. -/
def resolveSelectionToPeers (lib : SelectorLibrary) (selection : PeerSelection) :
    List Infra.Peer → Except GoError (List Infra.Peer)
  | [] => pure []
  | p :: rest => do
      let hit ← selects lib selection.peerSelector p.labels
      let result ← resolveSelectionToPeers lib selection rest
      pure (if hit then p :: result else result)

/-- Put the matched peers, other than the current one, into the map of results. -/
def addMatched (currentName : String) (acc : GoMap String Infra.Peer)
    (matched : List Infra.Peer) : GoMap String Infra.Peer :=
  matched.foldl
    (fun acc peer => if peer.name ≠ currentName then acc.insert peer.name peer else acc) acc

/-- The selections of a policy in the order they are visited: egress, then ingress. -/
def selectionsOf (policy : LatticePolicy) : List PeerSelection :=
  policy.egress.flatMap (·.toPeers) ++ policy.ingress.flatMap (·.fromPeers)

/-- One selection: resolve it and add what it matched. -/
def addSelection (lib : SelectorLibrary) (current : Infra.Peer) (allPeers : List Infra.Peer)
    (acc : GoMap String Infra.Peer) (selection : PeerSelection) :
    Except GoError (GoMap String Infra.Peer) := do
  let matched ← resolveSelectionToPeers lib selection allPeers
  pure (addMatched current.name acc matched)

/-- What one policy contributes. -/
def addPolicy (lib : SelectorLibrary) (current : Infra.Peer) (allPeers : List Infra.Peer)
    (acc : GoMap String Infra.Peer) (policy : LatticePolicy) :
    Except GoError (GoMap String Infra.Peer) := do
  if ← matchLabels lib current policy.peerSelector then
    (selectionsOf policy).foldlM (addSelection lib current allPeers) acc
  else pure acc

/-- Peers in ascending order of name. -/
def sortByName (peers : List Infra.Peer) : List Infra.Peer :=
  peers.insertionSort fun p q => p.name ≤ q.name

/-- `GetComputedPeers`. The map is ranged over in some order and the result sorted by
name, so the order does not show. -/
def getComputedPeers (lib : SelectorLibrary) (current : Infra.Peer) (network : Network)
    (policies : List LatticePolicy) : Except GoError (List Infra.Peer) := do
  let final ← policies.foldlM (addPolicy lib current network.peers) ∅
  pure (sortByName (final.pairs.map Prod.snd))

/-! ## What it computes -/

/-- The label selector is well formed. -/
def ValidSelector (lib : SelectorLibrary) (selector : Option LabelSelector) : Prop :=
  ∃ sel, lib.labelSelectorAsSelector selector = .ok sel

/-- The selector is well formed and matches the labels. -/
def Selects (lib : SelectorLibrary) (selector : Option LabelSelector) (labels : Labels) : Prop :=
  selects lib selector labels = .ok true

/-- Every selector of the policy is well formed. -/
def ValidPolicy (lib : SelectorLibrary) (policy : LatticePolicy) : Prop :=
  ValidSelector lib (some policy.peerSelector) ∧
    ∀ selection ∈ selectionsOf policy, ValidSelector lib selection.peerSelector

/-- The policy applies to a peer with the labels `subject`, and one of its rules
selects a peer with the labels `object`. -/
def NamesPeer (lib : SelectorLibrary) (policy : LatticePolicy) (subject object : Labels) : Prop :=
  Selects lib (some policy.peerSelector) subject ∧
    ∃ selection ∈ selectionsOf policy, Selects lib selection.peerSelector object

variable {lib : SelectorLibrary}

theorem selects_iff {selector : Option LabelSelector} {sel : Selector}
    (h : lib.labelSelectorAsSelector selector = .ok sel) (labels : Labels) :
    Selects lib selector labels ↔ sel labels = true := by
  rw [Selects, selects, h, Except.ok.injEq]

theorem selects_of_valid {selector : Option LabelSelector} (h : ValidSelector lib selector) :
    ∃ sel : Labels → Bool, ∀ labels, selects lib selector labels = .ok (sel labels) := by
  obtain ⟨sel, hsel⟩ := h
  exact ⟨sel, fun labels => by rw [selects, hsel]⟩

section Resolve

variable {current : Infra.Peer} {network : Network} {policies : List LatticePolicy}
  {allPeers : List Infra.Peer}

variable {selection : PeerSelection}

theorem exists_resolveSelectionToPeers (hvalid : ValidSelector lib selection.peerSelector)
    (allPeers : List Infra.Peer) :
    ∃ matched, resolveSelectionToPeers lib selection allPeers = .ok matched := by
  obtain ⟨sel, hsel⟩ := selects_of_valid hvalid
  induction allPeers with
  | nil => exact ⟨[], rfl⟩
  | cons p rest ih =>
    obtain ⟨matched, hmatched⟩ := ih
    refine ⟨if sel p.labels then p :: matched else matched, ?_⟩
    rw [resolveSelectionToPeers, hsel, hmatched]
    rfl

variable {matched : List Infra.Peer} {p : Infra.Peer}

theorem mem_resolveSelectionToPeers
    (h : resolveSelectionToPeers lib selection allPeers = .ok matched) :
    p ∈ matched ↔ p ∈ allPeers ∧ Selects lib selection.peerSelector p.labels := by
  induction allPeers generalizing matched with
  | nil =>
    cases h
    simp
  | cons q rest ih =>
    rw [resolveSelectionToPeers, bind_eq_ok] at h
    obtain ⟨hit, hhit, h⟩ := h
    rw [bind_eq_ok] at h
    obtain ⟨matched', hmatched', h⟩ := h
    cases h
    have hq : Selects lib selection.peerSelector q.labels ↔ hit = true := by
      rw [Selects, hhit, Except.ok.injEq]
    cases hit with
    | true =>
      rw [if_pos rfl, List.mem_cons, List.mem_cons, ih hmatched', or_and_right]
      refine or_congr_left ⟨fun hpq => ⟨hpq, hpq ▸ hq.mpr rfl⟩, And.left⟩
    | false =>
      rw [if_neg Bool.false_ne_true, List.mem_cons, ih hmatched', or_and_right]
      refine (or_iff_right fun hpq => ?_).symm
      exact Bool.false_ne_true (hq.mp (hpq.1 ▸ hpq.2))

/-- The names in the map after a batch of matched peers. -/
theorem mem_addMatched {acc : GoMap String Infra.Peer} {currentName name : String} :
    name ∈ addMatched currentName acc matched ↔
      name ∈ acc ∨ ∃ p ∈ matched, p.name = name ∧ name ≠ currentName := by
  refine foldl_or (Q := fun acc : GoMap String Infra.Peer => name ∈ acc) (fun acc q => ?_)
    matched acc
  split_ifs with hq
  · rw [AList.mem_insert, or_comm]
    refine or_congr_right ⟨?_, fun h => h.1.symm⟩
    rintro rfl
    exact ⟨rfl, hq⟩
  · -- the current peer itself is left out
    refine (or_iff_left ?_).symm
    rintro ⟨rfl, hne⟩
    exact hq hne

/-- The map holds peers of the network, each under its own name. -/
def HoldsPeersOf (allPeers : List Infra.Peer) (m : GoMap String Infra.Peer) : Prop :=
  ∀ name p, m.lookup name = some p → p ∈ allPeers ∧ p.name = name

theorem HoldsPeersOf.addMatched {acc : GoMap String Infra.Peer} (h : HoldsPeersOf allPeers acc)
    (hmatched : ∀ p ∈ matched, p ∈ allPeers) (currentName : String) :
    HoldsPeersOf allPeers (addMatched currentName acc matched) := by
  refine List.foldlRecOn matched _ h fun acc hacc q hq name p hlookup => ?_
  split_ifs at hlookup
  · by_cases hname : name = q.name
    · subst hname
      rw [AList.lookup_insert, Option.some_inj] at hlookup
      exact hlookup ▸ ⟨hmatched q hq, rfl⟩
    · rw [AList.lookup_insert_ne hname] at hlookup
      exact hacc name p hlookup
  · exact hacc name p hlookup

variable {acc acc' : GoMap String Infra.Peer}

theorem mem_addSelection (h : addSelection lib current allPeers acc selection = .ok acc')
    (name : String) :
    name ∈ acc' ↔ name ∈ acc ∨ (name ≠ current.name ∧
      ∃ p ∈ allPeers, p.name = name ∧ Selects lib selection.peerSelector p.labels) := by
  rw [addSelection, bind_eq_ok] at h
  obtain ⟨matched, hmatched, h⟩ := h
  cases h
  rw [mem_addMatched]
  refine or_congr_right ⟨?_, ?_⟩
  · rintro ⟨p, hp, hname, hne⟩
    obtain ⟨hmem, hsel⟩ := (mem_resolveSelectionToPeers hmatched).mp hp
    exact ⟨hne, p, hmem, hname, hsel⟩
  · rintro ⟨hne, p, hmem, hname, hsel⟩
    exact ⟨p, (mem_resolveSelectionToPeers hmatched).mpr ⟨hmem, hsel⟩, hname, hne⟩

theorem HoldsPeersOf.addSelection (h : addSelection lib current allPeers acc selection = .ok acc')
    (hacc : HoldsPeersOf allPeers acc) : HoldsPeersOf allPeers acc' := by
  rw [Controller.addSelection, bind_eq_ok] at h
  obtain ⟨matched, hmatched, h⟩ := h
  cases h
  exact hacc.addMatched (fun p hp => ((mem_resolveSelectionToPeers hmatched).mp hp).1) _

variable {policy : LatticePolicy}

section

variable (h : addPolicy lib current allPeers acc policy = .ok acc')

include h

/-- A policy either does not apply, or runs through its selections. -/
theorem addPolicy_cases :
    (¬ Selects lib (some policy.peerSelector) current.labels ∧ acc' = acc) ∨
      (Selects lib (some policy.peerSelector) current.labels ∧
        (selectionsOf policy).foldlM (addSelection lib current allPeers) acc = .ok acc') := by
  rw [addPolicy, bind_eq_ok] at h
  obtain ⟨applies, happlies, h⟩ := h
  cases applies with
  | true => exact .inr ⟨happlies, h⟩
  | false =>
    cases h
    refine .inl ⟨fun hsel => ?_, rfl⟩
    rw [Selects, show selects lib _ _ = _ from happlies] at hsel
    cases hsel

theorem mem_addPolicy (name : String) :
    name ∈ acc' ↔ name ∈ acc ∨ (name ≠ current.name ∧
      ∃ p ∈ allPeers, p.name = name ∧ NamesPeer lib policy current.labels p.labels) := by
  rcases addPolicy_cases h with ⟨hnot, rfl⟩ | ⟨happlies, hloop⟩
  · refine (or_iff_left ?_).symm
    rintro ⟨-, p, -, -, happlies, -⟩
    exact hnot happlies
  · rw [foldlM_or hloop fun _ _ _ h => mem_addSelection h name]
    refine or_congr_right ⟨?_, ?_⟩
    · rintro ⟨selection, hselection, hne, p, hp, hname, hsel⟩
      exact ⟨hne, p, hp, hname, happlies, selection, hselection, hsel⟩
    · rintro ⟨hne, p, hp, hname, -, selection, hselection, hsel⟩
      exact ⟨selection, hselection, hne, p, hp, hname, hsel⟩

theorem HoldsPeersOf.addPolicy
    (hacc : HoldsPeersOf allPeers acc) : HoldsPeersOf allPeers acc' := by
  rcases addPolicy_cases h with ⟨-, rfl⟩ | ⟨-, hloop⟩
  · exact hacc
  · exact foldlM_induct hloop (fun _ _ _ => HoldsPeersOf.addSelection) hacc

end

theorem mem_sortByName {peers : List Infra.Peer} :
    p ∈ sortByName peers ↔ p ∈ peers :=
  (List.perm_insertionSort _ peers).mem_iff

variable {result : List Infra.Peer}

/-- The result of `GetComputedPeers` is read off its final map. -/
theorem getComputedPeers_cases (h : getComputedPeers lib current network policies = .ok result) :
    ∃ final, policies.foldlM (addPolicy lib current network.peers) ∅ = .ok final ∧
      ∀ p, p ∈ result ↔ ∃ name, final.lookup name = some p := by
  rw [getComputedPeers, bind_eq_ok] at h
  obtain ⟨final, hfinal, h⟩ := h
  cases h
  refine ⟨final, hfinal, fun p => ?_⟩
  rw [mem_sortByName, List.mem_map]
  constructor
  · rintro ⟨⟨name, q⟩, hmem, rfl⟩
    exact ⟨name, GoMap.mem_pairs.mp hmem⟩
  · rintro ⟨name, hlookup⟩
    exact ⟨(name, p), GoMap.mem_pairs.mpr hlookup, rfl⟩

theorem holdsPeersOf_final {final : GoMap String Infra.Peer}
    (h : policies.foldlM (addPolicy lib current network.peers) ∅ = .ok final) :
    HoldsPeersOf network.peers final :=
  foldlM_induct h (fun _ _ _ => HoldsPeersOf.addPolicy) fun name p hlookup => by
    simp at hlookup

/-- Computed peers are peers of the network. -/
theorem mem_peers_of_mem_getComputedPeers
    (h : getComputedPeers lib current network policies = .ok result) (hp : p ∈ result) :
    p ∈ network.peers := by
  obtain ⟨final, hfinal, hmem⟩ := getComputedPeers_cases h
  obtain ⟨name, hlookup⟩ := (hmem p).mp hp
  exact (holdsPeersOf_final hfinal name p hlookup).1

/-- **Who is computed.** A name is in the result exactly when it is not the current
peer's and some policy that applies to the current peer names a peer so called. -/
theorem mem_getComputedPeers (h : getComputedPeers lib current network policies = .ok result)
    (name : String) :
    (∃ p ∈ result, p.name = name) ↔ name ≠ current.name ∧ ∃ policy ∈ policies,
      ∃ p ∈ network.peers, p.name = name ∧ NamesPeer lib policy current.labels p.labels := by
  obtain ⟨final, hfinal, hmem⟩ := getComputedPeers_cases h
  have hholds := holdsPeersOf_final hfinal
  have hname : (∃ p ∈ result, p.name = name) ↔ name ∈ final := by
    rw [← AList.lookup_isSome, Option.isSome_iff_exists]
    constructor
    · rintro ⟨p, hp, rfl⟩
      obtain ⟨name, hlookup⟩ := (hmem p).mp hp
      exact ⟨p, (hholds name p hlookup).2 ▸ hlookup⟩
    · rintro ⟨p, hlookup⟩
      exact ⟨p, (hmem p).mpr ⟨name, hlookup⟩, (hholds name p hlookup).2⟩
  rw [hname, foldlM_or hfinal fun _ _ _ h => mem_addPolicy h name]
  constructor
  · rintro (hempty | ⟨policy, hpolicy, hne, hp⟩)
    · exact absurd hempty (AList.notMem_empty name)
    · exact ⟨hne, policy, hpolicy, hp⟩
  · rintro ⟨hne, policy, hpolicy, hp⟩
    exact .inr ⟨policy, hpolicy, hne, hp⟩

/-- With valid selectors nothing panics. -/
theorem exists_getComputedPeers (current : Infra.Peer) (network : Network)
    (hvalid : ∀ policy ∈ policies, ValidPolicy lib policy) :
    ∃ result, getComputedPeers lib current network policies = .ok result := by
  have hpolicy : ∀ acc, ∀ policy ∈ policies,
      ∃ acc', addPolicy lib current network.peers acc policy = .ok acc' := by
    intro acc policy hmem
    obtain ⟨hsubject, hobjects⟩ := hvalid policy hmem
    obtain ⟨sel, hsel⟩ := selects_of_valid hsubject
    rw [addPolicy, matchLabels, hsel]
    cases sel current.labels with
    | false => exact ⟨acc, rfl⟩
    | true =>
      refine exists_foldlM (fun acc selection hselection => ?_) acc
      rw [addSelection]
      obtain ⟨matched, hmatched⟩ :=
        exists_resolveSelectionToPeers (hobjects selection hselection) network.peers
      exact ⟨_, by rw [hmatched]; rfl⟩
  obtain ⟨final, hfinal⟩ := exists_foldlM hpolicy ∅
  exact ⟨_, by rw [getComputedPeers, hfinal]; rfl⟩

end Resolve

end Wireflow.Controller
