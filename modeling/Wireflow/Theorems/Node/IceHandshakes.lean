/-
# Handshakes that are sent again

The responder makes an agent when it gets a handshake, and takes every other handshake that finds
this agent for the first one of a node that has restarted. The initiator sends handshakes until it
sees the acknowledgement, so that a delay of two seconds, or a duplicate, is enough.

`no_reset_iff` says that a dialer is never closed by a handshake if and only if it gets none after
the one that it has accepted, as long as it is open.
-/

import Wireflow.Agent.IceHandshake
import Wireflow.Semantics.Steps

namespace Wireflow.Agent.IcePair

open Semantics Dialer

variable {pair : Pair} {i : Party} {n : State} {d : Dialer}

/-! ## The condition -/

/-- The handling of a handshake fails before there is an agent. -/
def Fails (trouble : Trouble) : Prop := trouble.sendFails = true ∨ trouble.agentFails = true

/-- The dialer has got a handshake that did not fail. -/
def Accepted (n : State) (i : Party) : Prop :=
  ∃ x ∈ n.delivered, x.1.target = i ∧ x.1.packet = .handshakeSyn ∧ ¬Fails x.2

/-- An open dialer gets no handshake after one that it has accepted. -/
def Timely (n : State) : Happening Party PacketType Trouble Act → Prop
  | .deliver e _ => e ∈ n.sent → e.packet = .handshakeSyn →
      (n.party e.target).closed = false → ¬Accepted n e.target
  | .act _ _ => True

/-! ## The invariant -/

/-- What holds as long as no handshake closes a dialer. -/
structure Calm (pair : Pair) (n : State) : Prop where
  target : ∀ e ∈ n.sent, e.target = e.source.other
  /-- Only the initiator sends handshakes. -/
  syn : ∀ e ∈ n.sent, e.packet = .handshakeSyn → pair.initiates e.source
  sending : ∀ i, (n.party i).sending = true → pair.initiates i
  resets : ∀ i, (n.party i).resets = 0
  /-- On the other side an agent comes from a handshake. -/
  agent : ∀ i, ¬pair.initiates i → (n.party i).closed = false →
    ((n.party i).agent = true ↔ Accepted n i)

/-- A dialer reacts, and the network may note that it has got a packet. -/
theorem Calm.reacts (h : Calm pair n) {x : Stimulus Party PacketType Trouble Act}
    (delivered : List (Envelope Party PacketType × Trouble))
    (hsent : ∀ out ∈ (react pair i x (n.party i)).2,
      out.1 = i.other ∧ (out.2 = .handshakeSyn → pair.initiates i))
    (hsending : (react pair i x (n.party i)).1.sending = true → pair.initiates i)
    (hresets : (react pair i x (n.party i)).1.resets = 0)
    (hagent : ¬pair.initiates i → (react pair i x (n.party i)).1.closed = false →
      ((react pair i x (n.party i)).1.agent = true ↔
        Accepted { n.reacts (react pair) i x with delivered := delivered } i))
    (hothers : ∀ j, j ≠ i →
      (Accepted { n.reacts (react pair) i x with delivered := delivered } j ↔ Accepted n j)) :
    Calm pair { n.reacts (react pair) i x with delivered := delivered } := by
  refine ⟨fun e he => ?_, fun e he hsyn => ?_, ?_, ?_, fun j hj hopen => ?_⟩
  · obtain he | ⟨rfl, hout⟩ := Net.mem_sent_reacts.mp he
    · exact h.target e he
    · exact (hsent _ hout).1
  · obtain he | ⟨rfl, hout⟩ := Net.mem_sent_reacts.mp he
    · exact h.syn e he hsyn
    · exact (hsent _ hout).2 hsyn
  · exact Net.forall_party_reacts (Q := fun j d => Dialer.sending d = true → pair.initiates j)
      hsending h.sending
  · exact Net.forall_party_reacts (Q := fun _ d => Dialer.resets d = 0) hresets h.resets
  · by_cases hji : j = i
    · subst hji
      have hself : (n.reacts (react pair) j x).party j = (react pair j x (n.party j)).1 :=
        Net.party_reacts_self
      show ((n.reacts (react pair) j x).party j).agent = true ↔ _
      rw [hself]
      exact hagent hj (hself ▸ hopen)
    · have hother : (n.reacts (react pair) i x).party j = n.party j := Net.party_reacts_of_ne hji
      show ((n.reacts (react pair) i x).party j).agent = true ↔ _
      rw [hother, hothers j hji]
      exact h.agent j hj (hother ▸ hopen)

/-! ## Single dialers -/

theorem mem_sendPacket {type type' : PacketType} (h : type' ∈ d.sendPacket type) :
    type' = type := by
  unfold sendPacket at h
  split_ifs at h
  · cases h
  · exact List.mem_singleton.mp h

section Acts

variable {initiator : Bool} {a : Act}

theorem act_syn (h : .handshakeSyn ∈ (d.act initiator a).2) :
    initiator = true ∨ d.sending = true := by
  cases a with
  | prepare fails =>
    refine .inl ?_
    by_contra hne
    simp [act, hne] at h
  | tick =>
    refine .inr ?_
    by_contra hne
    simp [act, hne] at h
  | candidate =>
    simp only [act] at h
    split_ifs at h
    · cases mem_sendPacket h
    · cases h
  | expire | close => cases h

theorem act_sending (h : (d.act initiator a).1.sending = true) :
    initiator = true ∨ d.sending = true := by
  cases a with
  | prepare fails =>
    cases initiator with
    | true => exact .inl rfl
    | false => exact .inr h
  | tick | candidate | close => exact .inr h
  | expire => cases h

theorem act_resets : (d.act initiator a).1.resets = d.resets := by
  cases a with
  | prepare fails =>
    simp only [act]
    split_ifs <;> rfl
  | _ => rfl

/-- On the side that does not initiate, a dialer neither gets an agent by itself nor loses it
without being closed. -/
theorem act_agent (hopen : (d.act false a).1.closed = false) :
    d.closed = false ∧ (d.act false a).1.agent = d.agent := by
  cases a with
  | close =>
    have hclosed : d.toIceDialer.close.closed = true := by
      rw [IceDialer.close]
      split_ifs with hclosed
      · exact hclosed
      · rfl
    cases hclosed.symm.trans hopen
  | _ => exact ⟨hopen, rfl⟩

end Acts

section Packets

variable {trouble : Trouble} {type : PacketType}

theorem handle_syn : .handshakeSyn ∉ (d.handle trouble type).2 := by
  intro h
  unfold handle at h
  split at h
  · split_ifs at h
    · cases h
    · cases h
    · cases h
    · cases mem_sendPacket h
  · split_ifs at h <;> cases h
  all_goals cases h

theorem handle_sending (h : (d.handle trouble type).1.sending = true) : d.sending = true := by
  unfold handle at h
  split at h <;> (try split_ifs at h) <;> exact h

/-- Only handshakes change what a handshake looks at. -/
theorem handle_of_ne (h : type ≠ .handshakeSyn) :
    (d.handle trouble type).1.resets = d.resets ∧
      (d.handle trouble type).1.closed = d.closed ∧
      (d.handle trouble type).1.agent = d.agent := by
  unfold handle
  split
  · exact absurd rfl h
  · split_ifs <;> exact ⟨rfl, rfl, rfl⟩
  · split_ifs <;> exact ⟨rfl, rfl, rfl⟩
  · split_ifs <;> exact ⟨rfl, rfl, rfl⟩
  · exact ⟨rfl, rfl, rfl⟩

theorem handle_closed (h : d.closed = true) : d.handle trouble .handshakeSyn = (d, []) := by
  simp only [handle, if_pos h]

/-- A handshake that finds no agent makes one, unless it fails. -/
theorem handle_fresh (hopen : d.closed = false) (hagent : d.agent = false) :
    (d.handle trouble .handshakeSyn).1.resets = d.resets ∧
      ((d.handle trouble .handshakeSyn).1.agent = true ↔ ¬Fails trouble) := by
  simp only [handle, hopen, hagent, Bool.false_eq_true, if_false, Fails]
  split_ifs with hsend
  · simp [hagent, hsend]
  · simp [hsend]

/-- A handshake that finds an agent closes the dialer. -/
theorem handle_active (hopen : d.closed = false) (hagent : d.agent = true) :
    (d.handle trouble .handshakeSyn).1.resets = d.resets + 1 := by
  simp only [handle, hopen, hagent, Bool.false_eq_true, if_false, if_true]

end Packets

/-! ## Steps -/

theorem Calm.act (h : Calm pair n) (a : Act) : Calm pair (n.reacts (react pair) i (.act a)) := by
  have hinitiates : pair.initiates i = true ∨ (n.party i).sending = true → pair.initiates i :=
    fun hi => hi.elim id (h.sending i)
  refine h.reacts n.delivered (fun out hout => ?_) (fun hs => hinitiates (act_sending hs)) ?_
    (fun hi hopen => ?_) fun _ _ => Iff.rfl
  · obtain ⟨type, htype, rfl⟩ := List.mem_map.mp hout
    refine ⟨rfl, ?_⟩
    rintro rfl
    exact hinitiates (act_syn htype)
  · exact act_resets.trans (h.resets i)
  · have hfalse : pair.initiates i = false := Bool.not_eq_true _ ▸ hi
    simp only [react, hfalse] at hopen ⊢
    obtain ⟨hold, hagent⟩ := act_agent hopen
    rw [hagent]
    exact h.agent i hi hold

/-- The network notes another packet. -/
theorem accepted_append {e : Envelope Party PacketType} {trouble : Trouble} (n' : State)
    (hn' : n'.delivered = n.delivered ++ [(e, trouble)]) (j : Party) :
    Accepted n' j ↔ Accepted n j ∨ e.target = j ∧ e.packet = .handshakeSyn ∧ ¬Fails trouble := by
  simp only [Accepted, hn', List.mem_append, List.mem_singleton, or_and_right, exists_or,
    exists_eq_left]

variable {e : Envelope Party PacketType} {trouble : Trouble}

/-- A handshake comes from the initiator, so it reaches the other side. -/
theorem Calm.responder (h : Calm pair n) (he : e ∈ n.sent) (hsyn : e.packet = .handshakeSyn) :
    ¬pair.initiates e.target := by
  rw [h.target e he, pair.initiates_other_iff, not_not]
  exact h.syn e he hsyn

theorem Calm.deliver (h : Calm pair n) (he : e ∈ n.sent)
    (htimely : Timely n (.deliver e trouble)) :
    Calm pair { n.reacts (react pair) e.target (.packet e trouble) with
      delivered := n.delivered ++ [(e, trouble)] } := by
  have haccepted := accepted_append
    { n.reacts (react pair) e.target (.packet e trouble) with
      delivered := n.delivered ++ [(e, trouble)] } rfl
  have hfresh : e.packet = .handshakeSyn → (n.party e.target).closed = false →
      (n.party e.target).agent = false := fun hsyn hopen => by
    have hagent := h.agent e.target (h.responder he hsyn) hopen
    exact Bool.eq_false_iff.mpr fun hne => htimely he hsyn hopen (hagent.mp hne)
  refine h.reacts _ (fun out hout => ?_) (fun hs => h.sending _ (handle_sending hs)) ?_
    (fun hi hopen => ?_) fun j hj => ?_
  · obtain ⟨type, htype, rfl⟩ := List.mem_map.mp hout
    refine ⟨rfl, ?_⟩
    rintro rfl
    exact absurd htype handle_syn
  · show ((n.party e.target).handle trouble e.packet).1.resets = 0
    by_cases hsyn : e.packet = .handshakeSyn
    · rw [hsyn]
      cases hclosed : (n.party e.target).closed with
      | true => rw [handle_closed hclosed, h.resets]
      | false => rw [(handle_fresh hclosed (hfresh hsyn hclosed)).1, h.resets]
    · rw [(handle_of_ne hsyn).1, h.resets]
  · rw [haccepted]
    change ((n.party e.target).handle trouble e.packet).1.closed = false at hopen
    show ((n.party e.target).handle trouble e.packet).1.agent = true ↔ _
    by_cases hsyn : e.packet = .handshakeSyn
    · rw [hsyn] at hopen ⊢
      cases hclosed : (n.party e.target).closed with
      | true =>
        rw [handle_closed hclosed, hclosed] at hopen
        cases hopen
      | false =>
        rw [(handle_fresh hclosed (hfresh hsyn hclosed)).2]
        have hnone := htimely he hsyn hclosed
        simp [hnone]
    · rw [(handle_of_ne hsyn).2.1] at hopen
      rw [(handle_of_ne hsyn).2.2, h.agent e.target hi hopen]
      simp [hsyn]
  · rw [haccepted]
    simp [Ne.symm hj]

/-- A handshake after one that was accepted closes the dialer. -/
theorem Calm.resets_of_not_timely (h : Calm pair n) (hlate : ¬Timely n (.deliver e trouble)) :
    0 < ((n.step (react pair) (.deliver e trouble)).party e.target).resets := by
  simp only [Timely, Classical.not_imp, not_not] at hlate
  obtain ⟨he, hsyn, hopen, haccepted⟩ := hlate
  have hagent := (h.agent e.target (h.responder he hsyn) hopen).mpr haccepted
  have hself : ((n.reacts (react pair) e.target (.packet e trouble)).party e.target).resets =
      ((n.party e.target).handle trouble .handshakeSyn).1.resets := by
    rw [Net.party_reacts_self, ← hsyn]
    rfl
  rw [Net.step, if_pos he]
  show 0 < ((n.reacts (react pair) e.target (.packet e trouble)).party e.target).resets
  rw [hself, handle_active hopen hagent]
  exact Nat.succ_pos _

theorem resets_handle (type : PacketType) : d.resets ≤ (d.handle trouble type).1.resets := by
  by_cases hsyn : type = .handshakeSyn
  · subst hsyn
    cases hclosed : d.closed with
    | true => rw [handle_closed hclosed]
    | false =>
      cases hagent : d.agent with
      | true => exact (handle_active hclosed hagent).ge.trans' (Nat.le_succ _)
      | false => exact (handle_fresh hclosed hagent).1.ge
  · exact (handle_of_ne hsyn).1.ge

theorem resets_step (n : State) (x : Happening Party PacketType Trouble Act) (j : Party) :
    (n.party j).resets ≤ ((n.step (react pair) x).party j).resets := by
  cases x with
  | deliver e trouble =>
    rw [Net.step]
    split_ifs
    · exact Net.forall_party_reacts (Q := fun j d => (n.party j).resets ≤ resets d)
        (resets_handle _) (fun _ => le_rfl) j
    · exact le_rfl
  | act i a =>
    exact Net.forall_party_reacts (Q := fun j d => (n.party j).resets ≤ resets d)
      act_resets.ge (fun _ => le_rfl) j

/-! ## The theorem -/

theorem calm_initial : Calm pair initial where
  target := nofun
  syn := nofun
  sending := nofun
  resets _ := rfl
  agent _ _ _ := ⟨nofun, fun ⟨_, h, _⟩ => by cases h⟩

/-- **Handshakes that are sent again.** In a run without restarts of the nodes no handshake closes a
dialer, if and only if no open dialer gets a handshake after one that it has accepted. -/
theorem no_reset_iff (pair : Pair) (happenings : List (Happening Party PacketType Trouble Act)) :
    (∀ i, ((initial.run (react pair) happenings).party i).resets = 0) ↔
      AlongSteps (Net.step (react pair)) Timely initial happenings := by
  refine AlongSteps.iff_of_doom (I := Calm pair) (D := fun n : State => ∃ i, 0 < (n.party i).resets)
    (fun n x h _ htimely => ?_) (fun n x h _ hlate => ?_)
    (fun n x h _ => h.imp fun i hi => hi.trans_le (resets_step n x i))
    (fun n h (_ : True) => h.resets) (fun n h _ hall => h.elim fun i hi => hi.ne' (hall i))
    calm_initial (alongSteps_of_forall (fun _ _ _ => trivial) _) trivial
  · cases x with
    | act i a => exact h.act a
    | deliver e trouble =>
      rw [Net.step]
      split_ifs with he
      · exact h.deliver he htimely
      · exact h
  · cases x with
    | act i a => exact absurd trivial hlate
    | deliver e trouble => exact ⟨e.target, h.resets_of_not_timely hlate⟩

namespace Example

abbrev Run := List (Happening Party PacketType Trouble Act)

def packet (source : Party) (type : PacketType) : Happening Party PacketType Trouble Act :=
  .deliver ⟨source, source.other, type⟩ {}

/-- The acknowledgement takes more than two seconds, and the ticker fires. -/
def retransmitted : Run :=
  [.act .left (.prepare false), .act .right (.prepare false), packet .left .handshakeSyn,
    .act .left .tick, packet .left .handshakeSyn, packet .right .handshakeAck]

/-- The network delivers the handshake twice, and the acknowledgement in time. -/
def duplicated : Run :=
  [.act .left (.prepare false), .act .right (.prepare false), packet .left .handshakeSyn,
    packet .right .handshakeAck, packet .left .handshakeSyn]

def after (run : Run) : State := initial.run (react .leftFirst) run

end Example

/-- In both runs a handshake closes the dialer of the responder; the first one is on a network that
keeps the order and neither loses nor duplicates packets. -/
theorem resent_handshake_resets :
    (Example.after Example.retransmitted).InOrder (fun _ => ()) ∧
      ∀ run ∈ [Example.retransmitted, Example.duplicated],
        ((Example.after run).party .right).resets = 1 ∧
          ((Example.after run).party .right).closed = true := by
  refine ⟨fun source target c => ?_, by decide⟩
  cases source <;> cases target <;> cases c <;> decide

end Wireflow.Agent.IcePair
