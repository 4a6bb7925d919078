/-
# Parties on an unreliable network

Some parties react to packets and to events of their own, and send packets when they do. The network
keeps all packets that were ever sent and delivers any of them at any time: packets may be delayed,
reordered, duplicated and lost, but none is made up.

What was delivered is kept as well. A network that does better, for example one that keeps the order
of a channel, is a restriction on the runs considered here.
-/

import Mathlib.Data.List.Basic

namespace Semantics

open Function

/-- A packet on its way. -/
structure Envelope (ι P : Type) where
  source : ι
  target : ι
  packet : P
  deriving DecidableEq, Repr

/-- What a party reacts to. What the handling of a packet leaves open is a choice. -/
inductive Stimulus (ι P κ A : Type)
  | packet (e : Envelope ι P) (choice : κ)
  | act (a : A)

/-- How a party reacts: its next state, and what it sends to whom. -/
abbrev Reaction (ι P κ A σ : Type) := ι → Stimulus ι P κ A → σ → σ × List (ι × P)

/-- The parties and the network. -/
structure Net (ι P κ σ : Type) where
  party : ι → σ
  sent : List (Envelope ι P) := []
  delivered : List (Envelope ι P × κ) := []

/-- What happens next. -/
inductive Happening (ι P κ A : Type)
  | deliver (e : Envelope ι P) (choice : κ)
  | act (i : ι) (a : A)

namespace Net

variable {ι P κ A σ : Type} [DecidableEq ι]

/-- A party reacts. -/
def reacts (react : Reaction ι P κ A σ) (i : ι) (x : Stimulus ι P κ A) (n : Net ι P κ σ) :
    Net ι P κ σ :=
  { n with
    party := update n.party i (react i x (n.party i)).1
    sent := n.sent ++ (react i x (n.party i)).2.map fun out => ⟨i, out.1, out.2⟩ }

section Reacts

variable {react : Reaction ι P κ A σ} {i : ι} {x : Stimulus ι P κ A} {n : Net ι P κ σ}

@[simp] theorem party_reacts_self :
    (n.reacts react i x).party i = (react i x (n.party i)).1 := update_self ..

theorem party_reacts_of_ne {j : ι} (h : j ≠ i) : (n.reacts react i x).party j = n.party j :=
  update_of_ne h ..

/-- A packet was sent before, or is sent by the party that reacts. -/
theorem mem_sent_reacts {e : Envelope ι P} :
    e ∈ (n.reacts react i x).sent ↔
      e ∈ n.sent ∨ e.source = i ∧ (e.target, e.packet) ∈ (react i x (n.party i)).2 := by
  simp only [reacts, List.mem_append, List.mem_map]
  refine or_congr_right ⟨?_, ?_⟩
  · rintro ⟨out, hout, rfl⟩
    exact ⟨rfl, hout⟩
  · rintro ⟨rfl, hout⟩
    exact ⟨_, hout, rfl⟩

/-- What one party's reaction keeps of every party. -/
theorem forall_party_reacts {Q : ι → σ → Prop} (hself : Q i (react i x (n.party i)).1)
    (hothers : ∀ j, Q j (n.party j)) (j : ι) : Q j ((n.reacts react i x).party j) :=
  (forall_update_iff n.party Q).mpr ⟨hself, fun j _ => hothers j⟩ j

end Reacts

variable [DecidableEq P]

/-- Only packets that were sent are delivered. -/
def step (react : Reaction ι P κ A σ) (n : Net ι P κ σ) : Happening ι P κ A → Net ι P κ σ
  | .deliver e choice =>
      if e ∈ n.sent then
        { n.reacts react e.target (.packet e choice) with
          delivered := n.delivered ++ [(e, choice)] }
      else n
  | .act i a => n.reacts react i (.act a)

def run (react : Reaction ι P κ A σ) (n : Net ι P κ σ) (happenings : List (Happening ι P κ A)) :
    Net ι P κ σ :=
  happenings.foldl (step react) n

/-- **Invariants.** What deliveries of sent packets and events of the parties keep holds after every
run. -/
theorem run_invariant {react : Reaction ι P κ A σ} {I : Net ι P κ σ → Prop}
    (hdeliver : ∀ n e choice, I n → e ∈ n.sent →
      I { n.reacts react e.target (.packet e choice) with
          delivered := n.delivered ++ [(e, choice)] })
    (hact : ∀ n i a, I n → I (n.reacts react i (.act a))) {n : Net ι P κ σ} (hn : I n)
    (happenings : List (Happening ι P κ A)) : I (n.run react happenings) := by
  induction happenings generalizing n with
  | nil => exact hn
  | cons h rest ih =>
    refine ih ?_
    cases h with
    | act i a => exact hact n i a hn
    | deliver e choice =>
      rw [step]
      split_ifs with hsent
      · exact hdeliver n e choice hn hsent
      · exact hn

/-- Every channel has delivered, in order and once, what was sent first on it. -/
def InOrder {γ : Type} [DecidableEq γ] (channel : P → γ) (n : Net ι P κ σ) : Prop :=
  ∀ source target c,
    (n.delivered.map Prod.fst).filter (fun e =>
        e.source = source ∧ e.target = target ∧ channel e.packet = c) <+:
      n.sent.filter fun e => e.source = source ∧ e.target = target ∧ channel e.packet = c

end Net

end Semantics
