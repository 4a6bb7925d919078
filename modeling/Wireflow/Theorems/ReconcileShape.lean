/-
# The shape of a reconcile

Arguments about what reconcilers do to leases all walk through the same program: the peer
is read, finalizers are put in order, and then the phase decides. Along the way only a few
calls depend on the argument at hand. A `Discipline` lists them, with what has to be shown
of each, and `Discipline.wp_reconcile` walks through the program once. `Manners` is the part
of it that concerns the calls occurring everywhere.

Three assertions are carried along. `A node` is about the copy a reconciler works on; it is
established when the peer is read and has to survive what others do. `J node name network`
is what is known once the network to join has been read, and `L node name address` once an address
has been allocated.
-/

import Wireflow.Theorems.HandlerCalls
import Wireflow.Semantics.RelyGuarantee

namespace Wireflow.Controller

open Semantics Contract
open Wireflow.Api

/-- A peer as the phase machine sees it when it joins or leaves. -/
structure Entered (i : NamespacedName) (node : LatticePeer) : Prop where
  key : node.metadata.key = i
  finalizer : finalizerName ∈ node.metadata.finalizers
  visible : node.metadata.labels.get labelShadow ≠ "true"
  pending : node.status.phase = .pending

section Discipline

variable {σ ε : Type}

/-- What has to be shown of the calls that occur everywhere. -/
structure Manners (K : Contract NamespacedName Call σ Choice ε)
    (exec : (c : Call) → Choice → σ → c.Res × σ) (i : NamespacedName)
    (A : LatticePeer → σ → Prop) (J : LatticePeer → String → LatticeNetwork → σ → Prop) :
    Prop where
  stable : ∀ node, K.Stable i (A node)
  stableJoin : ∀ node name network, K.Stable i (J node name network)
  /-- Calls that do not touch the status keep both assertions. -/
  mild : ∀ c : Call, c.Mild i → ∀ t choice, K.inv t → K.admits i c choice t →
    K.inv (exec c choice t).2 ∧ K.guar i t (exec c choice t).2 ∧
      (∀ node, A node t → A node (exec c choice t).2) ∧
      ∀ node name network, J node name network t → J node name network (exec c choice t).2
  /-- A change of status that joins nothing. -/
  status : ∀ (base : LatticePeer) (status : LatticePeerStatus), base.metadata.key = i →
    NoJoin base.status status → ∀ t choice, K.inv t →
    K.admits i (.patchPeerStatus base { base with status := status }) choice t →
    K.inv (exec (.patchPeerStatus base { base with status := status }) choice t).2 ∧
      K.guar i t (exec (.patchPeerStatus base { base with status := status }) choice t).2

/-- What has to be shown of the calls of a reconciler. -/
structure Discipline (K : Contract NamespacedName Call σ Choice ε)
    (exec : (c : Call) → Choice → σ → c.Res × σ) (lib : SelectorLibrary) (i : NamespacedName)
    (A : LatticePeer → σ → Prop) (J : LatticePeer → String → LatticeNetwork → σ → Prop)
    (L : LatticePeer → String → String → σ → Prop) : Prop extends Manners K exec i A J where
  /-- Reading the peer. -/
  read : ∀ t choice, K.inv t → K.admits i (.getPeer i) choice t →
    K.inv (exec (.getPeer i) choice t).2 ∧ K.guar i t (exec (.getPeer i) choice t).2 ∧
      ∀ p, (exec (.getPeer i) choice t).1 = .ok p →
        p.metadata.key = i ∧ A p (exec (.getPeer i) choice t).2
  /-- Adding or removing the finalizer. -/
  update : ∀ (p : LatticePeer) (finalizers : List String) (s : σ), p.metadata.key = i → A p s →
    K.wp exec i (Client.updatePeer { p with
      metadata := { p.metadata with finalizers := finalizers } }) (fun _ _ => True) s
  /-- Reading the network to join. -/
  network : ∀ (node : LatticePeer) (name : String) (network : LatticeNetwork) (t : σ)
    (choice : Choice), Entered i node → A node t → K.inv t →
    (exec (.getNetwork ⟨i.ns, name⟩) choice t).1 = .ok network → network.activeCIDR ≠ "" →
    J node name network (exec (.getNetwork ⟨i.ns, name⟩) choice t).2
  /-- Allocating an address. -/
  allocate : ∀ (node : LatticePeer) (name : String) (network : LatticeNetwork) (s : σ),
    Entered i node → node.spec.network = some name → J node name network s →
    K.wp exec i (allocateIP network node)
      (fun r t => ∀ address, r = .ok address → L node name address t) s
  /-- Recording it. -/
  record : ∀ (node : LatticePeer) (name address : String) (s : σ), Entered i node →
    node.status.activeNetwork ≠ some name → L node name address s →
    K.wp exec i (updateStatus node (joinedStatus name address))
      (fun r _ => r.1.metadata.key = i) s
  /-- Releasing the address of a peer that leaves. -/
  release : ∀ (node : LatticePeer) (address : String) (ip : Go.Net.IP) (t : σ) (choice : Choice),
    Entered i node → A node t → node.status.allocatedAddress = some address → address ≠ "" →
    Go.Net.parseIP address = some ip → K.inv t →
    K.admits i (.deleteEndpoint ⟨i.ns, leaseName ip⟩) choice t →
    K.inv (exec (.deleteEndpoint ⟨i.ns, leaseName ip⟩) choice t).2 ∧
      K.guar i t (exec (.deleteEndpoint ⟨i.ns, leaseName ip⟩) choice t).2
  /-- A peer without a network becomes `Ready`. -/
  ready : ∀ (node : LatticePeer) (s : σ), Entered i node → A node s →
    node.status.activeNetwork = none →
    K.wp exec i (updateStatus node (withPhase .ready)) (fun r _ => r.1.metadata.key = i) s

variable {K : Contract NamespacedName Call σ Choice ε}
  {exec : (c : Call) → Choice → σ → c.Res × σ} {lib : SelectorLibrary} {i : NamespacedName}
  {A : LatticePeer → σ → Prop} {J : LatticePeer → String → LatticeNetwork → σ → Prop}
  {L : LatticePeer → String → String → σ → Prop} {node : LatticePeer} {s : σ}

/-- A status update: the patch is sound under a stable assertion that the update function
establishes. -/
theorem wp_updateStatus {f : LatticePeerStatus → Prog LatticePeerStatus}
    {B : LatticePeerStatus → σ → Prop} (hkey : node.metadata.key = i)
    (hf : K.wp exec i (f node.status) B s) (hstable : ∀ status, K.Stable i (B status))
    (hpatch : ∀ status t choice, B status t → K.inv t →
      K.admits i (.patchPeerStatus node { node with status := status }) choice t →
      K.inv (exec (.patchPeerStatus node { node with status := status }) choice t).2 ∧
        K.guar i t (exec (.patchPeerStatus node { node with status := status }) choice t).2) :
    K.wp exec i (updateStatus node f) (fun r _ => r.1.metadata.key = i) s := by
  apply wp_bind.mpr
  apply wp_mono _ hf
  intro status t ht
  split_ifs
  · exact hkey
  · -- others may have acted since; the assertion still holds
    apply wp_call (B status) (hstable status) ht
    intro u hu hinv choice hadm
    obtain ⟨hinv', hguar⟩ := hpatch status u choice hu hinv hadm
    refine ⟨hinv', hguar, ?_⟩
    cases (exec (.patchPeerStatus node { node with status := status }) choice u).1 with
    | ok patched => exact hkey
    | error err =>
      dsimp only [Program.bind]
      split_ifs
      · exact hkey
      · exact hkey

namespace Manners

/-! ## Programs that need no argument -/

theorem safe (d : Manners K exec i A J) {c : Call} (hc : c.Safe i) (t : σ)
    (choice : Choice) (hinv : K.inv t) (hadm : K.admits i c choice t) :
    K.inv (exec c choice t).2 ∧ K.guar i t (exec c choice t).2 := by
  have hmild : c.Mild i → K.inv (exec c choice t).2 ∧ K.guar i t (exec c choice t).2 := by
    intro hm
    obtain ⟨hinv', hguar, -⟩ := d.mild c hm t choice hinv hadm
    exact ⟨hinv', hguar⟩
  cases c with
  | patchPeerStatus base modified =>
    obtain ⟨hmodified, hkey, hchange⟩ := hc
    have hstep := d.status base modified.status hkey hchange t choice hinv
    rw [← hmodified] at hstep
    exact hstep hadm
  | _ => exact hmild hc

/-- A program of safe calls, at the end of a reconcile. -/
theorem wp_safe (d : Manners K exec i A J) {α : Type} {p : Prog α} {Q : α → Prop}
    (hp : p.Within (Call.Safe i) Q) : K.wp exec i p (fun a _ => Q a) s := by
  have hstable : K.Stable i fun _ => True := fun _ _ _ _ => trivial
  refine wp_mono (fun a t h => h.1) (wp_of_within hstable ?_ hp trivial)
  intro c hc t choice _ hinv hadm
  obtain ⟨hinv', hguar⟩ := d.safe hc t choice hinv hadm
  exact ⟨hinv', hguar, trivial⟩

/-- A program of mild calls keeps what is known of the network. -/
theorem wp_mild (d : Manners K exec i A J) {α : Type} {p : Prog α} {Q : α → Prop}
    {name : String} {network : LatticeNetwork} (hp : p.Within (Call.Mild i) Q)
    (hs : J node name network s) :
    K.wp exec i p (fun a t => Q a ∧ J node name network t) s := by
  apply wp_of_within (d.stableJoin node name network) _ hp hs
  intro c hc t choice ht hinv hadm
  obtain ⟨hinv', hguar, -, hkeeps⟩ := d.mild c hc t choice hinv hadm
  exact ⟨hinv', hguar, hkeeps node name network ht⟩

end Manners

namespace Discipline

variable (d : Discipline K exec lib i A J L)

include d

/-! ## Joining and leaving -/

section Pending

variable (hnode : Entered i node) (hs : A node s)

include hnode hs

theorem wp_joinNetwork {name : String} (hspec : node.spec.network = some name) :
    K.wp exec i (joinNetwork lib node name i) (fun _ _ => True) s := by
  have hns : node.metadata.ns = i.ns := by rw [← hnode.key]; rfl
  unfold joinNetwork
  split_ifs with hactive
  · trivial
  · rw [hns]
    apply wp_call (A node) (d.stable node) hs
    intro t ht hinv choice hadm
    obtain ⟨hinv', hguar, -, -⟩ := d.mild (.getNetwork ⟨i.ns, name⟩) trivial t choice hinv hadm
    refine ⟨hinv', hguar, ?_⟩
    cases hr : (exec (.getNetwork ⟨i.ns, name⟩) choice t).1 with
    | error err => exact d.toManners.wp_safe (within_failWith (tame_safe i) hnode.key _ _ _ err)
    | ok network =>
      dsimp only [Program.bind]
      split_ifs with hcidr
      · exact d.toManners.wp_safe (within_waiting (tame_safe i) hnode.key _ _)
      · have hjoin := d.network node name network t choice hnode ht hinv hr hcidr
        have hspecs := d.toManners.wp_mild
          (within_ensurePeerSpec (quiet_mild i) hnode.key name) hjoin
        apply wp_bind.mpr
        apply wp_mono _ hspecs
        intro r u hu
        obtain ⟨node', changed⟩ := r
        obtain ⟨⟨hkey', -, hsame⟩, hjoin'⟩ := hu
        cases changed with
        | error err => exact d.toManners.wp_safe (within_failWith (tame_safe i) hkey' _ _ _ err)
        | ok changed =>
          cases changed with
          | true => trivial
          | false =>
            -- nothing was patched: the copy is still the one read
            obtain rfl : node' = node := hsame rfl
            refine wp_except (d.allocate node' name network u hnode hspec hjoin')
              (fun err _ _ => d.toManners.wp_safe
                (within_failWith (tame_safe i) hkey' _ _ _ err)) fun address v hv => ?_
            apply wp_bind.mpr
            apply wp_mono _ (d.record node' name address v hnode hactive (hv address rfl))
            intro r _ hr
            obtain ⟨joined, updated⟩ := r
            cases updated with
            | error err => trivial
            | ok _ => exact d.toManners.wp_safe (within_lastReconcile (tame_safe i) hr i)

theorem wp_releaseIP {address : String} (haddress : node.status.allocatedAddress = some address) :
    K.wp exec i (releaseIP i.ns address) (fun _ _ => True) s := by
  unfold releaseIP
  split_ifs with hempty
  · trivial
  · cases hparse : Go.Net.parseIP address with
    | none => trivial
    | some ip =>
      apply wp_call (A node) (d.stable node) hs
      intro t ht hinv choice hadm
      obtain ⟨hinv', hguar⟩ :=
        d.release node address ip t choice hnode ht haddress hempty hparse hinv hadm
      refine ⟨hinv', hguar, ?_⟩
      cases (exec (.deleteEndpoint ⟨i.ns, leaseName ip⟩) choice t).1 with
      | ok _ => trivial
      | error err =>
        dsimp only [Program.bind]
        split_ifs
        · trivial
        · trivial

theorem wp_leaveNetwork (hactive : node.status.activeNetwork ≠ none) :
    K.wp exec i (leaveNetwork lib node i) (fun _ _ => True) s := by
  have hns : node.metadata.ns = i.ns := by rw [← hnode.key]; rfl
  have hrest : (leaveReleased lib node i).Within (Call.Safe i) fun _ => True :=
    within_leaveReleased (tame_safe i) hnode.key
      (fun _ hnone haddress => .inr ⟨hactive, hnone, haddress⟩) i
  unfold leaveNetwork
  cases haddress : node.status.allocatedAddress with
  | none => exact d.toManners.wp_safe hrest
  | some address =>
    rw [hns]
    refine wp_except (d.wp_releaseIP hnode hs haddress) (fun _ _ _ => trivial)
      fun _ _ _ => d.toManners.wp_safe hrest

theorem wp_handlePending : K.wp exec i (handlePending lib node i) (fun _ _ => True) s := by
  unfold handlePending
  cases hactive : node.status.activeNetwork with
  | none =>
    cases hspec : node.spec.network with
    | none =>
      apply wp_bind.mpr
      apply wp_mono _ (d.ready node s hnode hs hactive)
      intro r t hkey
      obtain ⟨node', updated⟩ := r
      cases updated with
      | error err => trivial
      | ok _ => exact d.toManners.wp_safe (within_lastReconcile (tame_safe i) hkey i)
    | some specNet => exact d.wp_joinNetwork hnode hs hspec
  | some activeNet =>
    have hsome : node.status.activeNetwork ≠ none := by simp [hactive]
    cases hspec : node.spec.network with
    | none => exact d.wp_leaveNetwork hnode hs hsome
    | some specNet =>
      dsimp only
      split_ifs
      · exact d.wp_leaveNetwork hnode hs hsome
      · exact d.wp_joinNetwork hnode hs hspec

end Pending

/-! ## The whole reconcile -/

theorem wp_handlePhase (hkey : node.metadata.key = i)
    (hfinal : finalizerName ∈ node.metadata.finalizers)
    (hvisible : node.metadata.labels.get labelShadow ≠ "true") (hs : A node s) :
    K.wp exec i (handlePhase lib node i) (fun _ _ => True) s := by
  unfold handlePhase
  cases hphase : node.status.phase with
  | empty | provisioning =>
    exact d.toManners.wp_safe (within_handleInitialization (tame_safe i)
      (within_ensureKeys (tame_safe i).toQuiet (fun hkey hshadow => ⟨hkey, hshadow⟩) hkey))
  | pending => exact d.wp_handlePending ⟨hkey, hfinal, hvisible, hphase⟩ hs
  | ready => exact d.toManners.wp_safe (within_handleReady (tame_safe i) hkey i)
  | failed => exact d.toManners.wp_safe (within_handleFailed (tame_safe i) hkey)

/-- **A reconcile keeps to its contract** when the calls of the discipline do. -/
theorem wp_reconcile : K.wp exec i (reconcile lib i) (fun _ _ => True) s := by
  apply wp_call (fun _ => True) (fun _ _ _ _ => trivial) trivial
  intro t _ hinv choice hadm
  obtain ⟨hinv', hguar, hread⟩ := d.read t choice hinv hadm
  refine ⟨hinv', hguar, ?_⟩
  cases hr : (exec (.getPeer i) choice t).1 with
  | error err =>
    dsimp only [Program.bind]
    split_ifs
    · trivial
    · trivial
  | ok peer =>
    obtain ⟨hkey, hA⟩ := hread peer hr
    dsimp only [Program.bind]
    split_ifs with hdeleted hfinal hfinal' hshadow
    · rw [handleDelete, if_neg (not_not.mpr hfinal)]
      exact wp_except (d.update peer _ _ hkey hA) (fun _ _ _ => trivial)
        fun _ _ _ => trivial
    · trivial
    · trivial
    · exact d.wp_handlePhase hkey hfinal' hshadow hA
    · exact wp_except (d.update peer _ _ hkey hA) (fun _ _ _ => trivial)
        fun _ _ _ => trivial

end Discipline

end Discipline

end Wireflow.Controller
