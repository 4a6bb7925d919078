/-
# Calls of the network controller

The requests that `NetworkReconciler` and the subnet allocator make, answered from the same
world as those of the peer reconciler. All reads of this controller go through a cache, so
each may be as old as the choice says.
-/

import Wireflow.Controller.Client

namespace Wireflow.Controller

open Semantics
open Wireflow.Api

inductive NetworkCall
  | getNetwork (key : NamespacedName)
  | patchNetworkStatus (base modified : LatticeNetwork)
  | getPool (key : NamespacedName)
  | listAllocations
  | createAllocation (alloc : LatticeSubnetAllocation)
  | setControllerReference
  /-- Peers of a namespace that carry the given labels. -/
  | listPeers (ns : String) (required : List (String × String))

/-- The answer to a call. -/
@[reducible] def NetworkCall.Res : NetworkCall → Type
  | .getNetwork _ => Except GoError LatticeNetwork
  | .patchNetworkStatus _ _ => Except GoError LatticeNetwork
  | .getPool _ => Except GoError LatticeGlobalIPPool
  | .listAllocations => Except GoError (List LatticeSubnetAllocation)
  | .createAllocation _ => Except GoError Unit
  | .setControllerReference => Except GoError Unit
  | .listPeers _ _ => Except GoError (List LatticePeer)

/-- A program of the network controller. -/
abbrev NetworkProg (α : Type) := Program NetworkCall NetworkCall.Res α

/-- Issue one call. -/
def NetworkCall.issue (c : NetworkCall) : NetworkProg c.Res := Program.perform c

/-- Answer a call. -/
def execNetwork : (c : NetworkCall) → Choice → World → c.Res × World
  | .getNetwork key, ch, w =>
      (ch.read (found networkResource key ((w.seen ch.lag).networks.get key)), w)
  | .patchNetworkStatus base modified, ch, w =>
      ch.write w (w.store.patchNetworkStatus base modified)
  | .getPool key, ch, w => (ch.read (found poolResource key ((w.seen ch.lag).pools.get key)), w)
  | .listAllocations, ch, w =>
      (ch.read (.ok ((w.seen ch.lag).allocations.listAll ch.listOrder)), w)
  | .createAllocation alloc, ch, w => ch.write w (w.store.createAllocation alloc)
  | .setControllerReference, ch, w => (ch.read (.ok ()), w)
  | .listPeers ns required, ch, w =>
      (ch.read (.ok (((w.seen ch.lag).peers.list ns ch.listOrder).filter fun p =>
        carries p.metadata.labels required)), w)

/-! ## The store after a call -/

/-- Creating an allocation: the answer says whether it happened, unless it got lost. -/
theorem createAllocation_cases (alloc : LatticeSubnetAllocation) (choice : Choice) (w : World) :
    (∃ err, execNetwork (.createAllocation alloc) choice w = (.error err, w)) ∨
      (w.store.allocations.get alloc.metadata.key = none ∧
        (execNetwork (.createAllocation alloc) choice w).2 =
          w.commit { w.store with allocations := w.store.allocations.put alloc } ∧
        ((execNetwork (.createAllocation alloc) choice w).1 = .ok () ∨
          ∃ f, choice.fault = some f ∧ choice.lost = true ∧
            (execNetwork (.createAllocation alloc) choice w).1 = .error f.error)) := by
  rw [execNetwork]
  cases hout : w.store.createAllocation alloc with
  | error err =>
    cases hfault : choice.fault with
    | none => exact .inl ⟨err, by simp [Choice.write, hfault]⟩
    | some f => exact .inl ⟨f.error, by simp [Choice.write, hfault]⟩
  | ok out =>
    obtain ⟨a, s⟩ := out
    obtain ⟨hfree, rfl⟩ := Store.createAllocation_eq_ok hout
    cases hfault : choice.fault with
    | none =>
      exact .inr ⟨hfree, by simp [Choice.write, hfault], .inl (by simp [Choice.write, hfault])⟩
    | some f =>
      cases hlost : choice.lost with
      | false => exact .inl ⟨f.error, by simp [Choice.write, hfault, hlost]⟩
      | true =>
        exact .inr ⟨hfree, by simp [Choice.write, hfault, hlost],
          .inr ⟨f, rfl, rfl, by simp [Choice.write, hfault]⟩⟩

/-- The calls that change nothing. -/
def NetworkCall.Reads : NetworkCall → Prop
  | .patchNetworkStatus _ _ | .createAllocation _ => False
  | _ => True

theorem execNetwork_reads {c : NetworkCall} (hc : c.Reads) (choice : Choice) (w : World) :
    (execNetwork c choice w).2 = w := by
  cases c with
  | patchNetworkStatus | createAllocation => exact hc.elim
  | _ => rfl

end Wireflow.Controller
