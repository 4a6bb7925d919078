/-
# Frames of several senders

What a target receives should be whole frames, each one that was accepted once, and those of one
sender in their order. While one sender is in `Write` and no other one is, the writer keeps this:
the bytes of the frame go from the frame into the buffer and from there to the connection, none of
them twice (`untorn_of_exclusive`).

Nothing keeps the senders apart, though. With two of them there is a run in which a frame that was
accepted is never sent, so the property is that of targets with a single sender (`untorn_iff`).
-/

import Wireflow.Relay.Protocol
import Wireflow.Relay.Writer
import Wireflow.Semantics.Steps

namespace Wireflow.Relay

open Go.Bufio Semantics Function List

namespace Target

/-! ## The notions -/

section

variable {ι : Type}

/-- No sender is in `Write`. -/
def Quiet (s : Target ι) : Prop := ∀ i, s.pc i = .idle

/-- The bytes of the frames that were accepted. -/
def delivered (s : Target ι) : List UInt8 := (s.accepted.map Prod.snd).flatten

/-- The target has received whole frames: exactly those that were accepted, and those of each sender
in their order. If the connection has failed, a part of the first frame that was rejected may
follow. -/
def Untorn [DecidableEq ι] (s : Target ι) : Prop :=
  ∃ (frames : List (ι × List UInt8)) (tail : List UInt8),
    s.writer.sent = (frames.map Prod.snd).flatten ++ tail ∧
      (∀ i, frames.filter (·.1 = i) = s.accepted.filter (·.1 = i)) ∧
      (tail = [] ∨ s.writer.err ≠ none ∧ ∃ r, s.rejected.head? = some r ∧ tail <+: r.2)

/-- No sender but one is in `Write`. -/
def Alone (s : Target ι) (i : ι) : Prop := ∀ j, j ≠ i → s.pc j = .idle

/-! ## A sender that is alone -/

/-- The target has received the frames that were accepted and the frame of the sender up to the
last bytes. -/
def Sends (s : Target ι) (frame left : List UInt8) : Prop :=
  ∃ t, s.writer.sent = s.delivered ++ t ∧ t ++ left = frame

/-- What holds at each point of `Write` while the connection works. -/
def Clean (s : Target ι) : Pc → Prop
  | .idle => s.writer.buf = [] ∧ s.writer.sent = s.delivered
  | .writing frame rest => s.Sends frame (s.writer.buf ++ rest)
  | .flushing frame rest => s.Sends frame (s.writer.buf ++ rest.getD [])
  | .flushed frame rest n failed =>
      (failed = false → n = s.writer.buf.length) ∧
        s.Sends frame (s.writer.buf.drop n ++ rest.getD [])
  | .resetting frame rest => s.Sends frame (rest.getD [])

/-- The frame that ends in the middle: the first one that was rejected, or the one whose `Write` is
about to return. -/
def Cut (s : Target ι) (frame : Option (List UInt8)) : Prop :=
  ∃ t f, s.writer.sent = s.delivered ++ t ∧ t <+: f ∧
    (s.rejected.head?.map Prod.snd).or frame = some f

/-- What holds after the connection has failed. -/
def Broken (s : Target ι) : Pc → Prop
  | .idle => s.Cut none
  | .writing frame _ => s.Cut (some frame)
  | _ => False

/-- What holds of a sender that is alone, by the point at which it is. -/
structure Holds (s : Target ι) (pc : Pc) : Prop where
  rejected : s.writer.err = none → s.rejected = []
  clean : s.writer.err = none → s.Clean pc
  broken : s.writer.err ≠ none → s.Broken pc

variable {s s' : Target ι} {pc : Pc} {frame left left' u : List UInt8}

/-- Some bytes go to the connection. -/
theorem Sends.advance (h : s.Sends frame left) (haccepted : s'.accepted = s.accepted)
    (hsent : s'.writer.sent = s.writer.sent ++ u) (hleft : left = u ++ left') :
    s'.Sends frame left' := by
  obtain ⟨t, ht, hframe⟩ := h
  refine ⟨t ++ u, ?_, ?_⟩
  · rw [hsent, ht, delivered, delivered, haccepted, append_assoc]
  · rw [append_assoc, ← hleft, hframe]

theorem Sends.same (h : s.Sends frame left) (haccepted : s'.accepted = s.accepted)
    (hsent : s'.writer.sent = s.writer.sent) (hleft : left = left') : s'.Sends frame left' :=
  h.advance (u := []) haccepted (by rw [hsent, append_nil]) hleft

/-- If the connection fails now, the frame is cut. -/
theorem Sends.cut (h : s.Sends frame left) (hrejected : s.rejected = []) : s.Cut (some frame) := by
  obtain ⟨t, ht, hframe⟩ := h
  exact ⟨t, frame, ht, ⟨left, hframe⟩, by rw [hrejected]; rfl⟩

theorem Holds.of_clean (herr : s.writer.err = none) (hrejected : s.rejected = [])
    (h : s.Clean pc) : s.Holds pc :=
  ⟨fun _ => hrejected, fun _ => h, fun hne => absurd herr hne⟩

theorem Holds.of_broken (herr : s.writer.err ≠ none) (h : s.Broken pc) : s.Holds pc :=
  ⟨fun hnone => absurd hnone herr, fun hnone => absurd hnone herr, fun _ => h⟩

/-- What an exclusive run keeps: whoever may act next finds what it needs. -/
structure Kept (s : Target ι) : Prop where
  quiet : s.Quiet → s.Holds .idle
  alone : ∀ i, s.Alone i → s.Holds (s.pc i)

theorem kept_init : ({} : Target ι).Kept := by
  have hidle : ({} : Target ι).Holds .idle := .of_clean rfl rfl ⟨rfl, rfl⟩
  exact ⟨fun _ => hidle, fun _ _ => hidle⟩

end

section

variable {ι : Type} [DecidableEq ι] {s : Target ι} {i j : ι} {w : Writer} {pc : Pc}
  {frame left u : List UInt8} {rest : Option (List UInt8)} {fails : Option ℕ} {ok : Bool}

theorem pc_goto : (s.goto i w pc).pc i = pc := update_self ..

theorem pc_accept : (s.accept i w frame).pc i = .idle := update_self ..

theorem pc_reject : (s.reject i w frame).pc i = .idle := update_self ..

theorem holds_accept (herr : w.err = none) (hrejected : s.rejected = []) (hbuf : w.buf = [])
    (h : (s.goto i w .idle).Sends frame []) : (s.accept i w frame).Holds .idle := by
  refine .of_clean herr hrejected ⟨hbuf, ?_⟩
  obtain ⟨t, ht, hframe⟩ := h
  have hframe' : t = frame := by rw [← hframe, append_nil]
  change w.sent = ((s.accepted ++ [(i, frame)]).map Prod.snd).flatten
  rw [map_append, flatten_append, ← hframe']
  exact ht.trans (congrArg _ (append_nil t).symm)

theorem holds_reject (herr : w.err ≠ none) (h : (s.goto i w .idle).Cut (some frame)) :
    (s.reject i w frame).Holds .idle := by
  refine .of_broken herr ?_
  obtain ⟨t, f, ht, hprefix, hf⟩ := h
  refine ⟨t, f, ht, hprefix, ?_⟩
  change ((s.rejected ++ [(i, frame)]).head?.map Prod.snd).or none = some f
  change (s.rejected.head?.map Prod.snd).or (some frame) = some f at hf
  rw [← hf]
  cases s.rejected <;> rfl

theorem holds_flushReturns_true (herr : w.err = none) (hrejected : s.rejected = [])
    (hbuf : w.buf = []) (h : (s.goto i w .idle).Sends frame (rest.getD [])) :
    (s.flushReturns i w frame rest true).Holds ((s.flushReturns i w frame rest true).pc i) := by
  cases rest with
  | some p =>
    rw [flushReturns, pc_goto]
    refine .of_clean herr hrejected (h.same rfl rfl ?_)
    exact (congrArg (· ++ p) hbuf).symm
  | none =>
    rw [flushReturns, if_pos rfl, pc_accept]
    exact holds_accept herr hrejected hbuf h

theorem holds_flushReturns_false (herr : w.err ≠ none) (h : (s.goto i w .idle).Cut (some frame)) :
    (s.flushReturns i w frame rest false).Holds ((s.flushReturns i w frame rest false).pc i) := by
  cases rest with
  | some p =>
    rw [flushReturns, pc_goto]
    exact .of_broken herr h
  | none =>
    rw [flushReturns, if_neg Bool.false_ne_true, pc_reject]
    exact holds_reject herr h

/-! ## One step -/

theorem holds_relay (h : s.Holds .idle) :
    (s.goto i s.writer (.writing frame frame)).Holds (.writing frame frame) := by
  refine ⟨h.rejected, fun herr => ?_, fun herr => ?_⟩
  · obtain ⟨hbuf, hsent⟩ := h.clean herr
    exact ⟨[], hsent.trans (append_nil _).symm, congrArg (· ++ frame) hbuf⟩
  · obtain ⟨t, f, ht, hprefix, hf⟩ := h.broken herr
    rw [Option.or_none] at hf
    exact ⟨t, f, ht, hprefix, by rw [goto, hf]; rfl⟩

/-- A round of the loop in `Write`. -/
theorem holds_act_writing (hpc : s.pc i = .writing frame left)
    (h : s.Holds (.writing frame left)) : (s.act i fails).Holds ((s.act i fails).pc i) := by
  unfold act
  rw [hpc]
  dsimp only
  rcases hround : s.writer.round fails left with ⟨w, next⟩
  obtain ⟨rest, u, rfl, herr, hsent, hleft⟩ | ⟨rest, buf, rfl, herr, rfl, hbuf⟩ |
    ⟨rfl, herr, rfl⟩ | ⟨rfl, rfl, herr⟩ := Writer.round_cases hround
  · have hrejected := h.rejected herr
    have hsends : (s.goto i w (.writing frame rest)).Sends frame (w.buf ++ rest) :=
      (h.clean herr).advance rfl hsent hleft
    rw [pc_goto]
    exact ⟨fun _ => hrejected, fun _ => hsends, fun _ => hsends.cut hrejected⟩
  · rw [pc_goto]
    exact .of_clean herr (h.rejected herr) ((h.clean herr).same rfl rfl hbuf)
  · rw [pc_goto]
    exact .of_clean herr (h.rejected herr) ((h.clean herr).same rfl rfl (append_nil _).symm)
  · rw [pc_reject]
    exact holds_reject herr (h.broken herr)

/-- The first part of `Flush`. -/
theorem holds_act_flushing (hpc : s.pc i = .flushing frame rest)
    (h : s.Holds (.flushing frame rest)) : (s.act i fails).Holds ((s.act i fails).pc i) := by
  have herr : s.writer.err = none := by
    by_contra hne
    exact h.broken hne
  have hrejected := h.rejected herr
  have hsends : s.Sends frame (s.writer.buf ++ rest.getD []) := h.clean herr
  unfold act
  rw [hpc]
  rcases hflush : s.writer.flush fails with ⟨w, next⟩
  obtain ⟨rfl, rfl, hbuf⟩ | ⟨n, failed, u, rfl, herr', hn, hsent, hbuf⟩ | hfailed :=
    Writer.flush_cases hflush
  · refine holds_flushReturns_true herr hrejected hbuf (hsends.same rfl rfl ?_)
    rw [hbuf, nil_append]
  · rw [pc_goto]
    refine .of_clean herr' hrejected ⟨hn, hsends.advance rfl hsent ?_⟩
    rw [hbuf, append_assoc]
    rfl
  · exact absurd herr hfailed

/-- The comparison in `Flush`. -/
theorem holds_act_flushed {n : ℕ} {failed : Bool} (hpc : s.pc i = .flushed frame rest n failed)
    (h : s.Holds (.flushed frame rest n failed)) :
    (s.act i fails).Holds ((s.act i fails).pc i) := by
  have herr : s.writer.err = none := by
    by_contra hne
    exact h.broken hne
  obtain ⟨hn, hsends⟩ := h.clean herr
  unfold act
  rw [hpc]
  dsimp only
  rcases hcompare : s.writer.compare n failed with ⟨w, next⟩
  obtain ⟨rfl, rfl, hok⟩ | ⟨rfl, herr', hsent, -⟩ := Writer.compare_cases hcompare
  · rw [pc_goto]
    refine .of_clean herr (h.rejected herr) (hsends.same rfl rfl ?_)
    rw [hn hok, drop_length, nil_append]
  · have hsends' : (s.goto i w .idle).Sends frame (s.writer.buf.drop n ++ rest.getD []) :=
      hsends.same rfl hsent rfl
    exact holds_flushReturns_false herr' (hsends'.cut (h.rejected herr))

/-- The end of `Flush`. -/
theorem holds_act_resetting (hpc : s.pc i = .resetting frame rest)
    (h : s.Holds (.resetting frame rest)) : (s.act i fails).Holds ((s.act i fails).pc i) := by
  have herr : s.writer.err = none := by
    by_contra hne
    exact h.broken hne
  have hsends : s.Sends frame (rest.getD []) := h.clean herr
  unfold act
  rw [hpc]
  exact holds_flushReturns_true herr (h.rejected herr) rfl (hsends.same rfl rfl rfl)

theorem holds_act (h : s.Holds (s.pc i)) : (s.act i fails).Holds ((s.act i fails).pc i) := by
  cases hpc : s.pc i with
  | idle =>
    have hact : s.act i fails = s := by rw [act, hpc]
    rw [hact]
    exact h
  | writing frame left => exact holds_act_writing hpc (hpc ▸ h)
  | flushing frame rest => exact holds_act_flushing hpc (hpc ▸ h)
  | flushed frame rest n failed => exact holds_act_flushed hpc (hpc ▸ h)
  | resetting frame rest => exact holds_act_resetting hpc (hpc ▸ h)

theorem step_relay (s : Target ι) (i : ι) (frame : List UInt8) :
    s.step (.relay i frame) =
      if s.pc i = .idle then s.goto i s.writer (.writing frame frame) else s := by
  cases hpc : s.pc i <;> simp only [step, hpc, reduceCtorEq, if_false, if_true]

variable {a : Action ι}

theorem holds_step (h : s.Holds (s.pc a.sender)) :
    (s.step a).Holds ((s.step a).pc a.sender) := by
  cases a with
  | act i fails => exact holds_act h
  | relay i frame =>
    rw [step_relay]
    split_ifs with hidle
    · rw [Action.sender, pc_goto]
      exact holds_relay (hidle ▸ h)
    · exact h

/-! ## Exclusive runs -/

theorem pc_goto_of_ne (hne : j ≠ i) : (s.goto i w pc).pc j = s.pc j :=
  update_of_ne hne ..

theorem pc_reject_of_ne (hne : j ≠ i) : (s.reject i w frame).pc j = s.pc j :=
  update_of_ne hne ..

theorem pc_flushReturns_of_ne (hne : j ≠ i) :
    (s.flushReturns i w frame rest ok).pc j = s.pc j := by
  unfold flushReturns
  split
  · exact pc_goto_of_ne hne
  · split
    · exact update_of_ne hne ..
    · exact pc_reject_of_ne hne

theorem pc_act_of_ne (hne : j ≠ i) : (s.act i fails).pc j = s.pc j := by
  unfold act
  split
  · rfl
  · split
    · exact pc_goto_of_ne hne
    · exact pc_goto_of_ne hne
    · exact pc_goto_of_ne hne
    · exact pc_reject_of_ne hne
  · split
    · exact pc_flushReturns_of_ne hne
    · exact pc_goto_of_ne hne
    · exact pc_flushReturns_of_ne hne
  · split
    · exact pc_goto_of_ne hne
    · exact pc_flushReturns_of_ne hne
  · exact pc_flushReturns_of_ne hne

theorem pc_step_of_ne (hne : j ≠ a.sender) : (s.step a).pc j = s.pc j := by
  cases a with
  | act i fails => exact pc_act_of_ne hne
  | relay i frame =>
    rw [step_relay]
    split_ifs
    · exact pc_goto_of_ne hne
    · rfl

theorem kept_step (h : s.Kept) (halone : s.Alone a.sender) : (s.step a).Kept := by
  have hnext := holds_step (h.alone a.sender halone)
  refine ⟨fun hquiet => hquiet a.sender ▸ hnext, fun i hi => ?_⟩
  by_cases hne : i = a.sender
  · rw [hne]
    exact hnext
  · -- the sender has come to rest, and the others were idle before
    have hsender := hi a.sender (Ne.symm hne)
    rw [pc_step_of_ne hne, halone i hne, ← hsender]
    exact hnext

theorem untorn_of_holds (h : s.Holds .idle) : s.Untorn := by
  by_cases herr : s.writer.err = none
  · exact ⟨s.accepted, [], by rw [(h.clean herr).2, append_nil]; rfl, fun _ => rfl, .inl rfl⟩
  · obtain ⟨t, f, ht, hprefix, hf⟩ := h.broken herr
    rw [Option.or_none] at hf
    obtain ⟨r, hr, rfl⟩ := Option.map_eq_some_iff.mp hf
    exact ⟨s.accepted, t, ht, fun _ => rfl, .inr ⟨herr, r, hr, hprefix⟩⟩

/-- **Senders one at a time.** If no sender acts while another one is in `Write`, the target
receives whole frames. -/
theorem untorn_of_exclusive {actions : List (Action ι)}
    (h : AlongSteps step (fun s a => s.Alone a.sender) {} actions)
    (hquiet : (run actions).Quiet) : (run actions).Untorn := by
  have hkept := h.invariant (I := Kept)
    (fun s a hs halone => ⟨trivial, kept_step hs halone⟩) kept_init
  exact untorn_of_holds (hkept.2.quiet hquiet)

/-! ## Two senders -/

/-- The second sender puts its frame into the buffer after the first one has compared, and before it
resets the buffer. -/
def losing (i j : ι) (f g : List UInt8) : List (Action ι) :=
  [.relay i f, .relay j g, .act i none, .act i none, .act i none, .act j none, .act i none,
    .act j none]

theorem run_losing {f g : List UInt8} (hij : i ≠ j) (hf : f ≠ [])
    (hsize : f.length + g.length ≤ 4096) :
    run (losing i j f g) =
      { writer := { sent := f }, accepted := [(i, f), (j, g)] } := by
  have hfits : ¬ 4096 < f.length := by omega
  have hfits' : ¬ 4096 - f.length < g.length := by omega
  simp only [run, losing, foldl_cons, step, goto, ne_eq, hij.symm, not_false_eq_true,
    update_of_ne, act, hij, update_self, Writer.round, not_true_eq_false,
    if_false, if_true, Writer.available, length_nil, tsub_zero, hfits, nil_append,
    Writer.flush, hf, taken, Option.isSome_none, update_idem, Writer.compare,
    Bool.false_eq_true, lt_self_iff_false, hfits', flushReturns, accept, Writer.reset,
    cons_append, foldl_nil, mk.injEq, and_self, and_true, true_and]
  -- both senders have come to rest
  funext k
  by_cases hkj : k = j
  · rw [hkj, update_self]
  · by_cases hki : k = i
    · rw [hki, update_of_ne hij, update_self]
    · simp only [ne_eq, hkj, hki, not_false_eq_true, update_of_ne]

theorem not_untorn_losing {f g : List UInt8} (hij : i ≠ j) (hf : f ≠ [])
    (hsize : f.length + g.length ≤ 4096) (hg : ¬ List.Sublist g f) :
    ¬ (run (losing i j f g)).Untorn := by
  rw [run_losing hij hf hsize]
  rintro ⟨frames, tail, hsent, hframes, htail⟩
  obtain rfl : tail = [] := htail.resolve_right fun h => h.1 rfl
  -- the frame of the second sender would have to be somewhere in that of the first one
  have hmem : (j, g) ∈ frames := by
    have hfilter : (j, g) ∈ frames.filter (·.1 = j) := by
      rw [hframes j]
      simp [hij]
    exact (mem_filter.mp hfilter).1
  have hflatten : f = (frames.map Prod.snd).flatten := hsent.trans (append_nil _)
  rw [hflatten] at hg
  exact hg (sublist_flatten_of_mem (mem_map_of_mem hmem))

/-- A frame that does not fit into the buffer is written in two parts, and another frame of the
first sender comes between them. -/
def tearing (i j : ι) (f g large : List UInt8) : List (Action ι) :=
  [.relay i f, .act i none, .relay j large, .act j none, .act j none, .act j none, .act j none,
    .act i none, .relay i g, .act i none, .act j none, .act j none, .act j none, .act j none,
    .act i none]

theorem run_tearing {f g large : List UInt8} (hij : i ≠ j) (hf : f ≠ []) (hg : g ≠ [])
    (hsize : f.length ≤ 4096) (hlarge : 4096 < f.length + large.length)
    (hrest : g.length + f.length + large.length ≤ 2 * 4096) :
    (run (tearing i j f g large)).writer.sent =
        f ++ large.take (4096 - f.length) ++ (g ++ large.drop (4096 - f.length)) ∧
      (run (tearing i j f g large)).accepted = [(i, f), (j, large), (i, g)] := by
  have hfits : ¬ 4096 < f.length := by omega
  have hfull : 4096 - f.length < large.length := by omega
  have hfits' : ¬ 4096 < g.length := by omega
  have hfits'' : ¬ 4096 - g.length < large.length - (4096 - f.length) := by omega
  simp [run, tearing, step, goto, hij, hij.symm, act, Writer.round, Writer.available, Writer.flush,
    Writer.compare, Writer.reset, taken, flushReturns, accept, hf, hg, hfits, hfull, hfits',
    hfits'']

end

/-- **Whole frames.** In all runs of the senders of a target, the target receives whole frames, each
one that was accepted once and those of a sender in their order, if and only if the target has no
two senders. -/
theorem untorn_iff (ι : Type) [DecidableEq ι] :
    (∀ actions : List (Action ι), (run actions).Quiet → (run actions).Untorn) ↔
      Subsingleton ι := by
  constructor
  · intro h
    refine ⟨fun i j => ?_⟩
    by_contra hij
    let f := makeFrame 1 7 forward []
    let g := makeFrame 2 7 forward []
    have hrun := run_losing (f := f) (g := g) hij (by decide) (by decide)
    refine not_untorn_losing (f := f) (g := g) hij (by decide) (by decide) (by decide) (h _ ?_)
    exact hrun ▸ fun _ => rfl
  · intro hsub actions hquiet
    refine untorn_of_exclusive (alongSteps_of_forall (fun a _ s j hne => ?_) _) hquiet
    exact absurd (Subsingleton.elim j a.sender) hne

/-- **Frames torn, sent twice and lost.** Two senders with frames for one target; no call of the
connection fails and all frames are accepted. The frame that does not fit into the buffer comes
with another one in its middle; two frames that are in the buffer together are written by both
senders; and a frame is dropped from the buffer before it is written. -/
theorem frames_torn :
    let small := makeFrame 1 7 forward []
    let other := makeFrame 2 7 forward []
    let large := makeFrame 3 7 forward (List.replicate 4085 0)
    let torn : List (Action Bool) := tearing false true small other large
    let twice : List (Action Bool) :=
      [.relay false small, .relay true other, .act false none, .act true none, .act false none,
        .act true none, .act false none, .act false none, .act true none, .act true none]
    ((run torn).writer.sent = small ++ large.take 4084 ++ (other ++ large.drop 4084) ∧
        (run torn).accepted = [(false, small), (true, large), (false, other)]) ∧
      ((run twice).writer.sent = small ++ other ++ small ++ other ∧
        (run twice).accepted = [(false, small), (true, other)]) ∧
      ((run (losing false true small other)).writer.sent = small ∧
        (run (losing false true small other)).accepted = [(false, small), (true, other)]) := by
  have hlarge : (makeFrame 3 7 forward (replicate 4085 0)).length = 4097 := by
    rw [makeFrame, length_append, length_marshal, length_replicate]
    rfl
  refine ⟨run_tearing (by decide) (by decide) (by decide) (by decide) ?_ ?_, by decide +kernel⟩
  · rw [hlarge]
    decide
  · rw [hlarge]
    decide

end Target

end Wireflow.Relay
