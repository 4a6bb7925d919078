/-
# Agreement of relayed dialers

The dialer of the initiator sends offers and the other one answers them. An answer is sent at the
end of the handler of an offer, so that it vouches for what the handler did before; and the
initiator closes its `readyChan` only at the end of the handler of an answer. `agreement` follows
along these lines, for all ways in which packets are delayed, reordered, duplicated or lost.

The other result is about restarts. A handshake that finds `active` set is taken for the first one
of a node that has restarted, but it may also be one that was overtaken by an offer on the other
channel. `no_restart_iff` says that this is the only way in which a restart comes about.
-/

import Wireflow.Agent.WrrpHandshake
import Wireflow.Semantics.Steps

namespace Wireflow.Agent.WrrpPair

open Semantics Net List Dialer

variable {I : Type} {pair : Pair} {w w' : Dialer I} {i : Party}

/-! ## What dialers do not lose -/

/-- The node has known this of itself. -/
def Dialer.Shown (w : Dialer I) (info : I) : Prop := info = w.own ∨ info ∈ w.past

structure Dialer.Grows (w w' : Dialer I) : Prop where
  shown : ∀ info, w.Shown info → w'.Shown info
  received : ∀ info ∈ w.received, info ∈ w'.received
  ready : w.ready = true → w'.ready = true

theorem Dialer.Grows.refl (w : Dialer I) : w.Grows w := ⟨fun _ h => h, fun _ h => h, id⟩

section Facts

variable {party party' : Party → Dialer I}

/-- A side has received what the other one knows of itself. -/
def Heard (party : Party → Dialer I) (i : Party) : Prop :=
  ∃ info ∈ (party i).received, (party i.other).Shown info

/-- The other side is ready, and both have heard of each other. -/
structure Concluded (party : Party → Dialer I) (i : Party) : Prop where
  ready : (party i.other).ready = true
  heard_other : Heard party i.other
  heard : Heard party i

theorem Heard.grows (h : Heard party i) (hgrows : ∀ j, (party j).Grows (party' j)) :
    Heard party' i := by
  obtain ⟨info, hreceived, hshown⟩ := h
  exact ⟨info, (hgrows i).received info hreceived, (hgrows i.other).shown info hshown⟩

theorem Concluded.grows (h : Concluded party i) (hgrows : ∀ j, (party j).Grows (party' j)) :
    Concluded party' i :=
  ⟨(hgrows i.other).ready h.ready, h.heard_other.grows hgrows, h.heard.grows hgrows⟩

/-- What a packet says of its sender. -/
structure Vouched (pair : Pair) (party : Party → Dialer I) (source : Party) (pk : Packet I) :
    Prop where
  shown : (party source).Shown pk.info
  offer : pk.type = .offer → pair.initiates source
  answer : pk.type = .answer →
    ¬pair.initiates source ∧ (party source).ready = true ∧ Heard party source

theorem Vouched.grows {source : Party} {pk : Packet I} (h : Vouched pair party source pk)
    (hgrows : ∀ j, (party j).Grows (party' j)) : Vouched pair party' source pk where
  shown := (hgrows source).shown _ h.shown
  offer := h.offer
  answer hpk :=
    have hsource := h.answer hpk
    ⟨hsource.1, (hgrows source).ready hsource.2.1, hsource.2.2.grows hgrows⟩

/-- What a handler has done before it comes to a stage. -/
def Fits (pair : Pair) (party : Party → Dialer I) (i : Party) : Stage I → Prop
  | .receives pk => Vouched pair party i.other pk
  | .offers => pair.initiates i
  | .activates true | .readies true => ¬pair.initiates i ∧ Heard party i
  | .activates false | .readies false => Concluded party i
  | .answers => ¬pair.initiates i ∧ (party i).ready = true ∧ Heard party i
  | .checks | .acknowledges => True

theorem Fits.grows {stage : Stage I} (h : Fits pair party i stage)
    (hgrows : ∀ j, (party j).Grows (party' j)) : Fits pair party' i stage := by
  cases stage with
  | receives pk => exact Vouched.grows h hgrows
  | checks | acknowledges | offers => exact h
  | activates answers | readies answers =>
    cases answers with
    | true => exact ⟨h.1, h.2.grows hgrows⟩
    | false => exact Concluded.grows h hgrows
  | answers => exact ⟨h.1, (hgrows i).ready h.2.1, h.2.2.grows hgrows⟩

end Facts

/-! ## The invariant -/

structure Agrees (pair : Pair) (n : State I) : Prop where
  target : ∀ e ∈ n.sent, e.target = e.source.other
  sent : ∀ e ∈ n.sent, Vouched pair n.party e.source e.packet
  handlers : ∀ i, ∀ stage ∈ (n.party i).handlers, Fits pair n.party i stage
  ready : ∀ i, pair.initiates i → (n.party i).ready = true → Concluded n.party i

variable {n : State I} {x : Stimulus Party (Packet I) Unit (Act I)}

theorem grows_reacts (hgrows : (n.party i).Grows (react pair i x (n.party i)).1) (j : Party) :
    (n.party j).Grows ((n.reacts (react pair) i x).party j) :=
  forall_party_reacts (Q := fun j w' => (n.party j).Grows w') hgrows (fun _ => .refl _) j

/-- A dialer reacts, and all that is new fits. -/
theorem Agrees.reacts (h : Agrees pair n)
    (hgrows : (n.party i).Grows (react pair i x (n.party i)).1)
    (hsent : ∀ out ∈ (react pair i x (n.party i)).2,
      out.1 = i.other ∧ Vouched pair (n.reacts (react pair) i x).party i out.2)
    (hhandlers : ∀ stage ∈ (react pair i x (n.party i)).1.handlers,
      stage ∈ (n.party i).handlers ∨ Fits pair (n.reacts (react pair) i x).party i stage)
    (hready : pair.initiates i → (react pair i x (n.party i)).1.ready = true →
      (n.party i).ready = true ∨ Concluded (n.reacts (react pair) i x).party i) :
    Agrees pair (n.reacts (react pair) i x) := by
  have hall := grows_reacts hgrows
  refine ⟨fun e he => ?_, fun e he => ?_, fun j stage hstage => ?_, fun j hj hjready => ?_⟩
  · obtain he | ⟨rfl, hout⟩ := mem_sent_reacts.mp he
    · exact h.target e he
    · exact (hsent _ hout).1
  · obtain he | ⟨rfl, hout⟩ := mem_sent_reacts.mp he
    · exact (h.sent e he).grows hall
    · exact (hsent _ hout).2
  · by_cases hji : j = i
    · subst hji
      rw [party_reacts_self] at hstage
      exact (hhandlers stage hstage).elim (fun hold => (h.handlers j stage hold).grows hall) id
    · rw [party_reacts_of_ne hji] at hstage
      exact (h.handlers j stage hstage).grows hall
  · by_cases hji : j = i
    · subst hji
      rw [party_reacts_self] at hjready
      exact (hready hj hjready).elim (fun hold => (h.ready j hj hold).grows hall) id
    · rw [party_reacts_of_ne hji] at hjready
      exact (h.ready j hj hjready).grows hall

/-! ## Steps -/

theorem grows_handle (pk : Packet I) (w : Dialer I) : w.Grows (w.handle pk) := by
  unfold handle
  split <;> exact ⟨fun _ h => h, fun _ h => h, id⟩

theorem grows_perform (stage : Stage I) (handlers : List (Stage I)) (w : Dialer I) :
    w.Grows { w.perform stage with handlers := handlers } := by
  cases stage with
  | receives pk => exact ⟨fun _ h => h, fun _ h => mem_cons_of_mem _ h, id⟩
  | readies answers => exact ⟨fun _ h => h, fun _ h => h, fun _ => rfl⟩
  | _ => exact ⟨fun _ h => h, fun _ h => h, id⟩

/-- `Handle` is called with a packet that was sent. -/
theorem Agrees.handle (h : Agrees pair n) {e : Envelope Party (Packet I)} (he : e ∈ n.sent) :
    Agrees pair (n.reacts (react pair) e.target (.packet e ())) := by
  have hgrows : (n.party e.target).Grows
      (react pair e.target (.packet e ()) (n.party e.target)).1 := grows_handle e.packet _
  have hsource : e.target.other = e.source := by rw [h.target e he, Party.other_other]
  refine h.reacts hgrows nofun (fun stage hstage => ?_) fun _ hready => .inl ?_
  · change stage ∈ ((n.party e.target).handle e.packet).handlers at hstage
    have hnew : stage ∈ (n.party e.target).handlers ∨ stage = .receives e.packet := by
      unfold Dialer.handle at hstage
      split at hstage
      · exact .inl hstage
      all_goals simpa using hstage
    refine hnew.imp_right ?_
    rintro rfl
    rw [Fits, hsource]
    exact (h.sent e he).grows (grows_reacts hgrows)
  · change ((n.party e.target).handle e.packet).ready = true at hready
    unfold Dialer.handle at hready
    split at hready <;> exact hready

section Handlers

variable {party : Party → Dialer I} {stage next : Stage I} {handlers : List (Stage I)}

/-- What a handler does next fits what it has done. -/
theorem fits_next (hfits : Fits pair party i stage)
    (hself : party i = { w.perform stage with handlers := handlers })
    (hnext : w.next (pair.initiates i) stage = some next) : Fits pair party i next := by
  cases stage with
  | receives pk =>
    have hheard : Heard party i :=
      ⟨pk.info, by rw [hself]; exact mem_cons_self, Vouched.shown hfits⟩
    cases hpk : pk.type with
    | unknown => simp [Dialer.next, Packet.next, hpk] at hnext
    | handshakeSyn =>
      obtain rfl : .checks = next := by simpa [Dialer.next, Packet.next, hpk] using hnext
      trivial
    | handshakeAck =>
      obtain ⟨hinitiates, rfl⟩ : pair.initiates i = true ∧ .offers = next := by
        simpa [Dialer.next, Packet.next, hpk] using hnext
      exact hinitiates
    | offer =>
      obtain rfl : .activates true = next := by simpa [Dialer.next, Packet.next, hpk] using hnext
      exact ⟨(pair.initiates_other_iff i).mp (Vouched.offer hfits hpk), hheard⟩
    | answer =>
      obtain rfl : .activates false = next := by simpa [Dialer.next, Packet.next, hpk] using hnext
      obtain ⟨-, hready, hother⟩ := Vouched.answer hfits hpk
      exact ⟨hready, hother, hheard⟩
  | checks =>
    obtain ⟨-, rfl⟩ : w.active = false ∧ .acknowledges = next := by
      simpa [Dialer.next] using hnext
    trivial
  | activates answers =>
    obtain rfl : .readies answers = next := by simpa [Dialer.next] using hnext
    cases answers <;> exact hfits
  | readies answers =>
    obtain ⟨rfl, rfl⟩ : answers = true ∧ .answers = next := by simpa [Dialer.next] using hnext
    exact ⟨hfits.1, by rw [hself]; rfl, hfits.2⟩
  | acknowledges | offers | answers => cases hnext

/-- What a handler sends says the truth. -/
theorem vouched_sends (hfits : Fits pair party i stage)
    (hself : party i = { w.perform stage with handlers := handlers }) (pk : Packet I)
    (hpk : pk ∈ w.sends stage) : Vouched pair party i pk := by
  cases stage with
  | receives _ | checks | activates _ | readies _ => cases hpk
  | acknowledges =>
    obtain rfl := mem_singleton.mp hpk
    exact ⟨.inl (by rw [hself]; rfl), nofun, nofun⟩
  | offers =>
    obtain rfl := mem_singleton.mp hpk
    exact ⟨.inl (by rw [hself]; rfl), fun _ => hfits, nofun⟩
  | answers =>
    obtain rfl := mem_singleton.mp hpk
    exact ⟨.inl (by rw [hself]; rfl), nofun, fun _ => hfits⟩

/-- The initiator is ready at the end of the handler of an answer. -/
theorem concluded_of_ready (hfits : Fits pair party i stage) (hi : pair.initiates i)
    (hready : (w.perform stage).ready = true) : w.ready = true ∨ Concluded party i := by
  cases stage with
  | readies answers =>
    cases answers with
    | true => exact absurd hi hfits.1
    | false => exact .inr hfits
  | _ => exact .inl hready

end Handlers

/-- A handler goes on. -/
theorem Agrees.proceed (h : Agrees pair n) (k : ℕ) :
    Agrees pair (n.reacts (react pair) i (.act (.proceed k))) := by
  cases hstage : (n.party i).handlers[k]? with
  | none =>
    have hreact : react pair i (.act (.proceed k)) (n.party i) = (n.party i, []) := by
      simp [react, act, hstage]
    refine h.reacts ?_ ?_ ?_ ?_ <;> rw [hreact]
    · exact .refl _
    · nofun
    · exact fun _ => .inl
    · exact fun _ => .inl
  | some stage =>
    have hreact : react pair i (.act (.proceed k)) (n.party i) =
        ({ (n.party i).perform stage with
            handlers := (n.party i).handlers.eraseIdx k ++
              ((n.party i).next (pair.initiates i) stage).toList },
          ((n.party i).sends stage).map fun pk => (i.other, pk)) := by
      simp [react, act, hstage]
    have hgrows : (n.party i).Grows (react pair i (.act (.proceed k)) (n.party i)).1 := by
      rw [hreact]
      exact grows_perform stage _ _
    have hall := grows_reacts hgrows
    have hfits : Fits pair (n.reacts (react pair) i (.act (.proceed k))).party i stage :=
      (h.handlers i stage (mem_of_getElem? hstage)).grows hall
    have hself : (n.reacts (react pair) i (.act (.proceed k))).party i =
        { (n.party i).perform stage with
            handlers := (n.party i).handlers.eraseIdx k ++
              ((n.party i).next (pair.initiates i) stage).toList } := by
      rw [party_reacts_self, hreact]
    refine h.reacts hgrows (fun out hout => ?_) (fun next hnext => ?_) fun hi hready => ?_
    · rw [hreact] at hout
      obtain ⟨pk, hpk, rfl⟩ := mem_map.mp hout
      exact ⟨rfl, vouched_sends hfits hself pk hpk⟩
    · rw [hreact] at hnext
      obtain hold | hnew := mem_append.mp hnext
      · exact .inl (mem_of_mem_eraseIdx hold)
      · exact .inr (fits_next hfits hself (Option.mem_toList.mp hnew))
    · rw [hreact] at hready
      exact concluded_of_ready hfits hi hready

/-- A dialer sends a handshake, or the node is told anew about itself. -/
theorem Agrees.act (h : Agrees pair n) (a : Act I) :
    Agrees pair (n.reacts (react pair) i (.act a)) := by
  cases a with
  | proceed k => exact h.proceed k
  | configure own =>
    have hgrows : (n.party i).Grows (react pair i (.act (.configure own)) (n.party i)).1 := by
      refine ⟨fun info hinfo => .inr ?_, fun _ hinfo => hinfo, id⟩
      exact hinfo.elim (fun heq => heq ▸ mem_cons_self) (mem_cons_of_mem _)
    exact h.reacts hgrows nofun (fun _ => .inl) fun _ => .inl
  | handshake =>
    refine h.reacts (.refl _) (fun out hout => ?_) (fun _ => .inl) fun _ => .inl
    obtain rfl := mem_singleton.mp hout
    refine ⟨rfl, .inl ?_, nofun, nofun⟩
    rw [party_reacts_self]
    rfl

/-! ## Agreement -/

section

variable [DecidableEq I]

/-- **Agreement.** Whatever the network does to the packets, only the side with the larger id sends
offers and only the other side sends answers; and when the initiator is ready, so is the other side,
and each of them has received what the other one knows of itself. -/
theorem agreement (pair : Pair) (own : Party → I)
    (happenings : List (Happening Party (Packet I) Unit (Act I))) :
    (∀ e ∈ ((initial own).run (react pair) happenings).sent,
      (e.packet.type = .offer → pair.initiates e.source) ∧
        (e.packet.type = .answer → ¬pair.initiates e.source)) ∧
      ∀ i, pair.initiates i → (((initial own).run (react pair) happenings).party i).ready = true →
        Concluded ((initial own).run (react pair) happenings).party i := by
  have h : Agrees pair ((initial own).run (react pair) happenings) := by
    refine run_invariant (fun n e _ h he => ?_) (fun n i a h => h.act a)
      ⟨nofun, nofun, nofun, nofun⟩ happenings
    have hnext := h.handle he
    exact ⟨hnext.target, hnext.sent, hnext.handlers, hnext.ready⟩
  exact ⟨fun e he => ⟨(h.sent e he).offer, fun hpk => ((h.sent e he).answer hpk).1⟩, h.ready⟩

end

/-! ## Restarts -/

/-- `active` remembers all offers and answers as long as no handshake resets it. -/
structure Dialer.Calm (w : Dialer I) : Prop where
  restarts : w.restarts = 0
  active : w.active = w.activated

theorem Dialer.Calm.perform (h : w.Calm) {stage : Stage I} (handlers : List (Stage I))
    (htimely : stage = .checks → w.activated = false) :
    ({ w.perform stage with handlers := handlers } : Dialer I).Calm := by
  cases stage with
  | checks =>
    have hactive : w.active = false := h.active.trans (htimely rfl)
    refine ⟨?_, ?_⟩
    · show w.restarts + w.active.toNat = 0
      rw [hactive, h.restarts, Bool.toNat_false]
    · exact (htimely rfl).symm
  | activates answers => exact ⟨h.restarts, rfl⟩
  | _ => exact ⟨h.restarts, h.active⟩

/-- A handshake that comes late restarts the probe. -/
theorem Dialer.Calm.restarts_perform (h : w.Calm) (hactivated : w.activated = true) :
    0 < (w.perform .checks).restarts := by
  show 0 < w.restarts + w.active.toNat
  rw [h.active, hactivated, Bool.toNat_true]
  omega

theorem Dialer.Calm.handle (h : w.Calm) (pk : Packet I) : (w.handle pk).Calm := by
  unfold Dialer.handle
  split <;> exact ⟨h.restarts, h.active⟩

theorem restarts_perform (stage : Stage I) (w : Dialer I) :
    w.restarts ≤ (w.perform stage).restarts := by
  cases stage <;> simp [perform]

/-- Restarts are not forgotten. -/
theorem restarts_react (x : Stimulus Party (Packet I) Unit (Act I)) (w : Dialer I) :
    w.restarts ≤ (react pair i x w).1.restarts := by
  cases x with
  | packet e _ =>
    show w.restarts ≤ (w.handle e.packet).restarts
    unfold handle
    split <;> exact le_rfl
  | act a =>
    cases a with
    | handshake | configure own => exact le_rfl
    | proceed k =>
      show w.restarts ≤ (w.act (pair.initiates i) (.proceed k)).1.restarts
      rw [act]
      cases w.handlers[k]? with
      | none => exact le_rfl
      | some stage => exact restarts_perform stage w

/-- No handshake is looked at by a dialer that an offer or an answer has activated before. -/
def Timely (n : State I) : Happening Party (Packet I) Unit (Act I) → Prop
  | .act i (.proceed k) =>
      (n.party i).handlers[k]? = some .checks → (n.party i).activated = false
  | _ => True

variable [DecidableEq I]

theorem calm_step (n : State I) (x : Happening Party (Packet I) Unit (Act I))
    (h : ∀ i, (n.party i).Calm) (htimely : Timely n x) (j : Party) :
    ((n.step (react pair) x).party j).Calm := by
  cases x with
  | deliver e choice =>
    rw [step]
    split_ifs
    · exact forall_party_reacts ((h e.target).handle e.packet) h j
    · exact h j
  | act i a =>
    refine forall_party_reacts ?_ h j
    cases a with
    | handshake | configure own => exact ⟨(h i).restarts, (h i).active⟩
    | proceed k =>
      show ((n.party i).act (pair.initiates i) (.proceed k)).1.Calm
      rw [act]
      cases hstage : (n.party i).handlers[k]? with
      | none => exact h i
      | some stage => exact (h i).perform _ fun hchecks => htimely (hchecks ▸ hstage)

/-- A step that is not timely restarts a probe. -/
theorem restarts_of_not_timely (n : State I) (x : Happening Party (Packet I) Unit (Act I))
    (h : ∀ i, (n.party i).Calm) (hlate : ¬Timely n x) :
    ∃ j, 0 < ((n.step (react pair) x).party j).restarts := by
  cases x with
  | deliver e choice => exact absurd trivial hlate
  | act i a =>
    cases a with
    | handshake | configure own => exact absurd trivial hlate
    | proceed k =>
      obtain ⟨hstage, hactivated⟩ := Classical.not_imp.mp hlate
      refine ⟨i, ?_⟩
      rw [step, party_reacts_self]
      show 0 < ((n.party i).act (pair.initiates i) (.proceed k)).1.restarts
      rw [act, hstage]
      exact (h i).restarts_perform (Bool.not_eq_false _ ▸ hactivated)

theorem restarts_step (n : State I) (x : Happening Party (Packet I) Unit (Act I)) (j : Party) :
    (n.party j).restarts ≤ ((n.step (react pair) x).party j).restarts := by
  cases x with
  | deliver e choice =>
    rw [step]
    split_ifs
    · exact forall_party_reacts (Q := fun j w => (n.party j).restarts ≤ restarts w)
        (restarts_react _ _) (fun _ => le_rfl) j
    · exact le_rfl
  | act i a =>
    exact forall_party_reacts (Q := fun j w => (n.party j).restarts ≤ restarts w)
      (restarts_react _ _) (fun _ => le_rfl) j

/-- **Restarts.** In a run without restarts of the nodes no dialer takes a handshake for one, if and
only if no handshake is looked at after an offer or an answer. -/
theorem no_restart_iff (pair : Pair) (own : Party → I)
    (happenings : List (Happening Party (Packet I) Unit (Act I))) :
    (∀ i, (((initial own).run (react pair) happenings).party i).restarts = 0) ↔
      AlongSteps (Net.step (react pair)) Timely (initial own) happenings :=
  AlongSteps.iff_of_doom (I := fun n : State I => ∀ i, (n.party i).Calm)
    (D := fun n : State I => ∃ i, 0 < (n.party i).restarts) (P := fun _ _ => True)
    (fun n x h _ htimely => calm_step n x h htimely)
    (fun n x h _ hlate => restarts_of_not_timely n x h hlate)
    (fun n x h _ => h.imp fun i hi => hi.trans_le (restarts_step n x i))
    (fun _ h (_ : True) i => (h i).restarts)
    (fun _ h _ hall => h.elim fun i hi => hi.ne' (hall i))
    (fun _ => ⟨rfl, rfl⟩) (alongSteps_of_forall (fun _ _ _ => trivial) _) trivial

namespace Example

abbrev Run := List (Happening Party (Packet Unit) Unit (Act Unit))

def packet (source : Party) (type : PacketType) : Happening Party (Packet Unit) Unit (Act Unit) :=
  .deliver ⟨source, source.other, ⟨type, ()⟩⟩ ()

/-- The only handler of a dialer goes on. -/
def proceeds (i : Party) (n : ℕ) : Run := List.replicate n (.act i (.proceed 0))

/-- Both sides prepare, and the left one gets an acknowledgement. -/
def acknowledged : Run :=
  [.act .left .handshake, .act .right .handshake, packet .left .handshakeSyn] ++
    proceeds .right 3 ++ [packet .right .handshakeSyn] ++ proceeds .left 3 ++
    [packet .right .handshakeAck] ++ proceeds .left 2

/-- The offer is answered. -/
def answered : Run :=
  acknowledged ++ [packet .left .offer] ++ proceeds .right 4 ++ [packet .right .answer] ++
    proceeds .left 3

/-- The left side sends a second handshake before it has the acknowledgement, and the offer, which
goes over the relay, arrives before it. -/
def overtaken : Run :=
  .act .left .handshake :: acknowledged ++ [packet .left .offer] ++ proceeds .right 4 ++
    [packet .left .handshakeSyn] ++ proceeds .right 2

def after (run : Run) : State Unit := (initial fun _ => ()).run (react .leftFirst) run

end Example

/-- A run in which the initiator becomes ready. -/
theorem agreement_reached :
    ((Example.after Example.answered).party .left).ready = true ∧
      Concluded (Example.after Example.answered).party .left :=
  ⟨by decide, (agreement .leftFirst _ Example.answered).2 .left (by decide) (by decide)⟩

/-- Both channels keep the order and lose nothing, and still the right side takes the second
handshake for a restart of the left one. -/
theorem restart_overtaken :
    (Example.after Example.overtaken).InOrder Packet.channel ∧
      ((Example.after Example.overtaken).party .right).restarts = 1 := by
  refine ⟨fun source target c => ?_, by decide⟩
  cases source <;> cases target <;> cases c <;> decide

end Wireflow.Agent.WrrpPair
