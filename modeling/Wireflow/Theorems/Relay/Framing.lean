/-
# Frames at the relay and at the client

Both readers should read frames as they were sent: every header they read is the header of a frame,
and the frames they hand on are those that were sent. The relay loses the boundaries with the first
payload of a frame that it does not relay. Expiries of the deadline do it no harm, since they end
the session.

`framing_iff` puts the two together, for streams that come in portions of any size.
-/

import Wireflow.Theorems.Relay.Receiving

namespace Wireflow.Relay

open Go.Reader Function List
open Go.Reader renaming readFull → readBytes

/-! ## The notions -/

namespace Frame

/-- The relay hands the frame on. -/
def Relays (f : Frame) : Prop := f.header.cmd = forward ∨ f.header.cmd = probe

instance (f : Frame) : Decidable f.Relays := inferInstanceAs (Decidable (_ ∨ _))

/-- The call of `Relay` for a frame. -/
def relayed (f : Frame) : Option (UInt64 × List UInt8) :=
  if f.Relays then some (f.header.toID.toUInt64, f.bytes) else none

end Frame

/-- The bytes that arrive before the deadline expires for the first time. -/
def punctual (s : List Item) : List UInt8 := (s.takeWhile Option.isSome).reduceOption

/-- No header arrives of a frame that has a payload and is not relayed. -/
def Unburdened (frames : List Frame) (s : List Item) : Prop :=
  ∀ done f rest, frames = done ++ f :: rest → ¬ f.Relays → f.payload ≠ [] →
    (punctual s).length < (wire done).length + headerSize

/-- The first frame is a registration. -/
def Registers (frames : List Frame) : Prop :=
  ∃ f, frames.head? = some f ∧ f.header.cmd = register

namespace BoltSession

variable {σ : Type}

/-- The session has handed on what the first frames hold, and while it can read on, the stream goes
on with the next frame. Nothing is left out at the end of the connection, unless bytes of it are
missing. -/
def Aligned (content : σ → List UInt8) (frames : List Frame) (missing : List UInt8)
    (s : BoltSession σ) : Prop :=
  ∃ done rest, frames = done ++ rest ∧ s.relayed = done.filterMap Frame.relayed ∧
    (s.running = true → s.failure = none → content s.stream ++ missing = wire rest) ∧
    (s.failure = some .eof → missing = [] → rest = [])

/-- A number of headers. -/
def steps (read : Read σ) (n : ℕ) (s : BoltSession σ) : BoltSession σ := (step read)^[n] s

end BoltSession

section

variable {f : Frame} {frames fs done rest : List Frame} {t : List Item} {l missing : List UInt8}

/-! ## Payloads that are not read -/

theorem punctual_map_some_append (l : List UInt8) (t : List Item) :
    punctual (l.map some ++ t) = l ++ punctual t := by
  induction l with
  | nil => rfl
  | cons b l ih =>
    rw [map_cons, cons_append, punctual, takeWhile_cons_of_pos rfl,
      reduceOption_cons_of_some, cons_append, ← ih]
    rfl

theorem punctual_cut {t' : List Item} (h : t = l.map some ++ none :: t' ∨ t = l.map some) :
    punctual t = l := by
  rcases h with rfl | rfl
  · rw [punctual_map_some_append]
    exact append_nil l
  · have hl := punctual_map_some_append l []
    rw [append_nil] at hl
    rw [hl]
    exact append_nil l

/-- `items_cases`, with the two ways in which bytes are missing as one. -/
theorem items_whole_or_cut (n : ℕ) (t : List Item) :
    (∃ (l : List UInt8) (t' : List Item), l.length = n ∧ t = l.map some ++ t') ∨
      (∃ (l : List UInt8) (t' : List Item), l.length < n ∧
        (t = l.map some ++ none :: t' ∨ t = l.map some)) := by
  rcases items_cases n t with h | ⟨l, t', hl, ht⟩ | ⟨l, hl, ht⟩
  · exact .inl h
  · exact .inr ⟨l, t', hl, .inl ht⟩
  · exact .inr ⟨l, [], hl, .inr ht⟩

theorem unburdened_iff {s : List Item} : Unburdened frames s ↔
    NoHeader (fun f => ¬ f.Relays ∧ f.payload ≠ []) frames (punctual s).length := by
  simp only [Unburdened, NoHeader, and_imp]

theorem unburdened_whole :
    Unburdened (f :: fs) (f.bytes.map some ++ t) ↔
      (¬ f.Relays → f.payload = []) ∧ Unburdened fs t := by
  rw [unburdened_iff, unburdened_iff, punctual_map_some_append, length_append,
    noHeader_whole, not_and_not_right]

/-- Of a frame that does not arrive whole before the deadline, only the header matters. -/
theorem unburdened_cut (hshort : (punctual t).length < f.bytes.length) :
    Unburdened (f :: fs) t ↔
      (¬ f.Relays → f.payload ≠ [] → (punctual t).length < headerSize) := by
  rw [unburdened_iff, noHeader_cut hshort, and_imp]

namespace BoltSession

variable {s : BoltSession (List Arrival)} {t' : List Arrival}

/-! ## Reads of the relay -/

theorem payloadLen_pos_iff : 0 < f.header.payloadLen ↔ f.payload ≠ [] := by
  rw [UInt32.lt_iff_toNat_lt, f.length_payload, ← length_pos_iff]
  rfl

section

variable (hfailure : s.failure = none)

include hfailure

theorem readFull_whole {n : ℕ} (hl : l.length = n) (hs : items s.stream = l.map some ++ t) :
    ∃ t', s.readFull readBytes n = (.ok l, { s with stream := t' }) ∧ items t' = t := by
  obtain ⟨t', hread, ht⟩ := readFull_of_items (hs ▸ readItems_whole hl t)
  exact ⟨t', by rw [readFull, hfailure, hread], ht⟩

/-- A read fails if the deadline expires or the connection ends too early. -/
theorem readFull_cut {n : ℕ} (hl : l.length < n)
    (hs : items s.stream = l.map some ++ none :: t ∨ items s.stream = l.map some) :
    ∃ err t', s.readFull readBytes n = (.error err, { s with stream := t', failure := some err }) ∧
      (err = .eof → items s.stream = l.map some) := by
  rcases hs with hs | hs
  · obtain ⟨t', hread, -⟩ := readFull_of_items (hs ▸ readItems_timeout hl t)
    exact ⟨.timeout, t', by rw [readFull, hfailure, hread], nofun⟩
  · obtain ⟨t', hread, -⟩ := readFull_of_items (hs ▸ readItems_eof hl)
    exact ⟨.eof, t', by rw [readFull, hfailure, hread], fun _ => hs⟩

/-! ## Rounds of the loop -/

/-- Only the header is read of a frame that is not relayed. -/
theorem round_skips (hs : items s.stream = f.header.marshal.map some ++ t) (hrelays : ¬ f.Relays) :
    ∃ t', s.round readBytes = { s with stream := t' } ∧ items t' = t := by
  obtain ⟨t', hread, ht⟩ := readFull_whole hfailure (length_marshal f.header) hs
  refine ⟨t', ?_, ht⟩
  rw [round, hread]
  simp only [unmarshal_marshal]
  split_ifs with hkeep hdata
  · rfl
  · exact absurd hdata hrelays
  · rfl

theorem round_relays (hs : items s.stream = f.header.marshal.map some ++ t) (hrelays : f.Relays) :
    ∃ t', items t' = t ∧ s.round readBytes =
      { s with stream := t' }.relayFrame readBytes f.header.marshal f.header := by
  have hkeep : f.header.cmd ≠ keepAlive := by
    rcases hrelays with h | h <;> rw [h] <;> decide
  obtain ⟨t', hread, ht⟩ := readFull_whole hfailure (length_marshal f.header) hs
  refine ⟨t', ht, ?_⟩
  rw [round, hread]
  simp only [unmarshal_marshal]
  rw [if_neg hkeep]
  exact if_pos hrelays

theorem round_whole (hs : items s.stream = f.bytes.map some ++ t) (hrelays : f.Relays) :
    ∃ t', s.round readBytes =
      { s with stream := t', relayed := s.relayed ++ [(f.header.toID.toUInt64, f.bytes)] } ∧
      items t' = t := by
  obtain ⟨t', ht', hround⟩ := round_relays hfailure hs hrelays
  rw [hround, relayFrame]
  split_ifs with hpayload
  · obtain ⟨t'', hread, ht⟩ := readFull_whole (s := { s with stream := t' }) hfailure
      f.length_payload.symm ht'
    rw [hread]
    exact ⟨t'', rfl, ht⟩
  · rw [payloadLen_pos_iff, not_not] at hpayload
    exact ⟨t', by simp [Frame.bytes, hpayload], by simpa [hpayload] using ht'⟩

theorem round_payload_cut (hs : items s.stream = f.header.marshal.map some ++ t)
    (hrelays : f.Relays) (hl : l.length < f.payload.length) {u : List Item}
    (ht : t = l.map some ++ none :: u ∨ t = l.map some) :
    ∃ err t', s.round readBytes = { s with stream := t', failure := some err } ∧
      (err = .eof → t = l.map some) := by
  have hpayload : f.payload ≠ [] := by
    rintro h
    simp [h] at hl
  obtain ⟨t', rfl, hround⟩ := round_relays hfailure hs hrelays
  obtain ⟨err, t'', hread, heof⟩ := readFull_cut (s := { s with stream := t' }) hfailure hl ht
  refine ⟨err, t'', ?_, heof⟩
  rw [hround, relayFrame, if_pos (payloadLen_pos_iff.mpr hpayload), f.length_payload, hread]

theorem readRegister_header (hs : items s.stream = f.header.marshal.map some ++ t) :
    ∃ t', items t' = t ∧ s.readRegister readBytes =
      if f.header.cmd = register then
        { s with stream := t', fromId := some f.header.toID.toUInt64 }
      else { s with stream := t', running := false } := by
  obtain ⟨t', hread, ht⟩ := readFull_whole hfailure (length_marshal f.header) hs
  refine ⟨t', ht, ?_⟩
  rw [readRegister, hread]
  simp only [unmarshal_marshal]

end

/-! ## Alignment of the relay -/

variable {err : ReadError}

/-- After a read has failed, the handler can only return. -/
theorem step_of_failure (hfailure : s.failure = some err) :
    s.step readBytes = { s with running := false } := by
  have hread : s.readFull readBytes headerSize = (.error err, s) := by rw [readFull, hfailure]
  by_cases hrunning : s.running = true
  · rw [step, if_pos hrunning]
    split
    · rw [readRegister, hread]
    · rw [round, hread]
  · rw [step, if_neg hrunning, ← Bool.eq_false_of_not_eq_true hrunning]

theorem aligned_of_failure (hframes : frames = done ++ rest)
    (hrelayed : s.relayed = done.filterMap Frame.relayed) (hfailure : s.failure = some err)
    (hrest : err = .eof → missing = [] → rest = []) (n : ℕ) :
    Aligned bytesOf frames missing (steps readBytes n s) := by
  induction n generalizing s with
  | zero =>
    refine ⟨done, rest, hframes, hrelayed, fun _ h => ?_, fun h => ?_⟩
    · rw [steps, iterate_zero_apply, hfailure] at h
      cases h
    · rw [steps, iterate_zero_apply, hfailure] at h
      exact hrest (Option.some.inj h)
  | succ n ih =>
    rw [steps, iterate_succ_apply, step_of_failure hfailure]
    exact ih hrelayed hfailure

/-- A handler that has returned stays as it is. -/
theorem aligned_of_returned (hframes : frames = done ++ rest)
    (hrelayed : s.relayed = done.filterMap Frame.relayed) (hrunning : s.running = false)
    (hfailure : s.failure = none) (n : ℕ) :
    Aligned bytesOf frames missing (steps readBytes n s) := by
  have hfixed : s.step readBytes = s := by simp [step, hrunning]
  rw [steps, iterate_fixed hfixed]
  refine ⟨done, rest, hframes, hrelayed, fun h => ?_, fun h => ?_⟩
  · rw [hrunning] at h
    cases h
  · rw [hfailure] at h
    cases h

/-- A session whose stream goes on inside of a frame is not aligned. -/
theorem not_aligned_inside (hframes : frames = done ++ f :: fs) (hrunning : s.running = true)
    (hfailure : s.failure = none) (ht : items t' = t)
    (hafter : (wire fs).length < (t.reduceOption ++ missing).length)
    (hbefore : (t.reduceOption ++ missing).length < (wire (f :: fs)).length) :
    ¬ Aligned bytesOf frames missing { s with stream := t' } := by
  rintro ⟨done', rest', hsplit, -, hcontent, -⟩
  subst ht
  exact no_boundary_inside hframes hafter hbefore done' rest' hsplit (hcontent hrunning hfailure)

/-- What is left of the frames when a read fails inside of one at the end of the connection. -/
theorem rest_of_eof (hshort : l.length < f.bytes.length)
    (heof : err = .eof → l ++ missing = wire (f :: fs)) (herr : err = .eof)
    (hmissing : missing = []) : f :: fs = [] := by
  have hlength := congrArg length (heof herr)
  simp only [hmissing, append_nil, wire_cons, length_append] at hlength
  omega

theorem step_eq_round (hrunning : s.running = true) (hid : s.fromId ≠ none) :
    s.step readBytes = s.round readBytes := by
  rw [step, if_pos hrunning]
  split
  · rename_i hnone
    exact absurd hnone hid
  · rfl

/-- The payload of a frame that is not relayed is taken for the next frames. -/
theorem burdened (hframes : frames = done ++ f :: fs) (hrunning : s.running = true)
    (hfailure : s.failure = none) (hrelays : ¬ f.Relays) (hpayload : f.payload ≠ [])
    (ht : items t' = t) (hafter : t.reduceOption ++ missing = f.payload ++ wire fs) :
    (∀ n, Aligned bytesOf frames missing (steps readBytes n { s with stream := t' })) ↔
      Unburdened (f :: fs) (f.header.marshal.map some ++ t) := by
  have hpos := length_pos_of_ne_nil hpayload
  refine iff_of_false (fun h => ?_) fun h => ?_
  · refine not_aligned_inside hframes hrunning hfailure ht ?_ ?_ (h 0) <;> rw [hafter] <;>
      simp only [length_append, wire_cons, Frame.length_bytes, headerSize] <;> omega
  · have := h [] f fs rfl hrelays hpayload
    rw [punctual_map_some_append, length_append, length_marshal] at this
    simp at this

section

variable (hframes : frames = done ++ rest) (hrunning : s.running = true)
  (hfailure : s.failure = none) (hid : s.fromId ≠ none)
  (hrelayed : s.relayed = done.filterMap Frame.relayed)
  (hcontent : bytesOf s.stream ++ missing = wire rest)

include hframes hrunning hfailure hid hrelayed hcontent

/-- At a boundary the next round decides. -/
theorem steps_round :
    (∀ n, Aligned bytesOf frames missing (steps readBytes n s)) ↔
      ∀ n, Aligned bytesOf frames missing (steps readBytes n (s.round readBytes)) := by
  have hnow : Aligned bytesOf frames missing s :=
    ⟨done, rest, hframes, hrelayed, fun _ _ => hcontent, fun h => by simp [hfailure] at h⟩
  rw [← step_eq_round hrunning hid]
  exact forall_iterate.trans (and_iff_right hnow)

/-- **The loop of the relay.** From a frame boundary on, all rounds are aligned if and only if no
payload is left in the stream. -/
theorem steps_aligned_iff :
    (∀ n, Aligned bytesOf frames missing (steps readBytes n s)) ↔
      Unburdened rest (items s.stream) := by
  -- by induction on the frames that are left: a round takes one of them, or ends the session
  induction rest generalizing s done with
  | nil =>
    rw [steps_round hframes hrunning hfailure hid hrelayed hcontent]
    rcases items_whole_or_cut headerSize (items s.stream) with ⟨l, t, hl, hs⟩ | ⟨l, t, hl, hs⟩
    · obtain ⟨f, fs, hnil, -⟩ := header_of_wire hl hs hcontent
      cases hnil
    · obtain ⟨err, t', hread, -⟩ := readFull_cut hfailure hl hs
      rw [round, hread]
      have hvacuous : Unburdened [] (items s.stream) := fun done f rest h => by simp at h
      exact iff_of_true (aligned_of_failure hframes hrelayed rfl fun _ _ => rfl) hvacuous
  | cons f fs ih =>
    rw [steps_round hframes hrunning hfailure hid hrelayed hcontent]
    have hframes' : frames = (done ++ [f]) ++ fs := by
      rw [hframes, append_assoc, singleton_append]
    rcases items_whole_or_cut headerSize (items s.stream) with ⟨l, t, hl, hs⟩ | ⟨l, t, hl, hs⟩
    · -- the header is there
      obtain ⟨f, fs, ⟨⟩, rfl, hafter⟩ := header_of_wire hl hs hcontent
      by_cases hrelays : f.Relays
      · rcases items_whole_or_cut f.payload.length t with ⟨l, t', hl', ht⟩ | ⟨l, t', hl', ht⟩
        · -- and so is the payload
          rw [ht, reduceOption_map_some_append, append_assoc] at hafter
          obtain ⟨rfl, hnext⟩ := append_inj hafter hl'
          have hs : items s.stream = f.bytes.map some ++ t' := by
            rw [hs, ht, Frame.bytes, map_append, append_assoc]
          obtain ⟨u, hround, rfl⟩ := round_whole hfailure hs hrelays
          rw [hround, hs, unburdened_whole, and_iff_right fun h => absurd hrelays h]
          refine ih hframes' hrunning hfailure hid ?_ hnext
          rw [filterMap_append, ← hrelayed]
          simp [Frame.relayed, hrelays]
        · obtain ⟨err, t'', hround, heof⟩ := round_payload_cut hfailure hs hrelays hl' ht
          have hpunctual : punctual (items s.stream) = f.header.marshal ++ l := by
            rw [hs, punctual_map_some_append, punctual_cut ht]
          have hshort : (f.header.marshal ++ l).length < f.bytes.length := by
            rw [length_append, length_marshal, Frame.length_bytes]
            omega
          rw [hround, unburdened_cut (by rw [hpunctual]; exact hshort)]
          refine iff_of_true (aligned_of_failure hframes hrelayed rfl (rest_of_eof hshort ?_))
            fun h => absurd hrelays h
          intro herr
          rw [heof herr, reduceOption_map_some] at hafter
          rw [append_assoc, hafter, wire_cons, Frame.bytes, append_assoc]
      · obtain ⟨u, hround, rfl⟩ := round_skips hfailure hs hrelays
        rw [hround]
        by_cases hpayload : f.payload = []
        · have hs : items s.stream = f.bytes.map some ++ items u := by
            rw [hs, Frame.bytes, hpayload, append_nil]
          rw [hpayload, nil_append] at hafter
          rw [hs, unburdened_whole, and_iff_right fun _ => hpayload]
          refine ih hframes' hrunning hfailure hid ?_ hafter
          rw [filterMap_append, ← hrelayed]
          simp [Frame.relayed, hrelays]
        · -- the next header is looked for in the payload
          rw [hs]
          exact burdened hframes hrunning hfailure hrelays hpayload rfl hafter
    · obtain ⟨err, t', hread, heof⟩ := readFull_cut hfailure hl hs
      have hpunctual := punctual_cut hs
      have hshort : l.length < f.bytes.length := by
        rw [Frame.length_bytes]
        omega
      rw [round, hread, unburdened_cut (by rw [hpunctual]; exact hshort)]
      refine iff_of_true (aligned_of_failure hframes hrelayed rfl (rest_of_eof hshort ?_))
        fun _ _ => by rwa [hpunctual]
      intro herr
      rwa [bytesOf, heof herr, reduceOption_map_some] at hcontent

end

/-! ## Registration -/

/-- **The session of a client.** The relay is aligned if and only if no payload is left in the
stream after a registration. -/
theorem session_aligned_iff {arrivals : List Arrival}
    (hcontent : bytesOf arrivals ++ missing = wire frames) :
    (∀ n, Aligned bytesOf frames missing (steps readBytes n { stream := arrivals })) ↔
      (Registers frames → Unburdened frames (items arrivals)) := by
  have hnow : Aligned bytesOf frames missing ({ stream := arrivals } : BoltSession _) :=
    ⟨[], frames, rfl, rfl, fun _ _ => hcontent, fun h => (nomatch h)⟩
  refine (forall_iterate.trans (and_iff_right hnow)).trans ?_
  change (∀ n, Aligned _ _ _ (steps readBytes n
    (readRegister readBytes ({ stream := arrivals } : BoltSession _)))) ↔ _
  rcases items_whole_or_cut headerSize (items arrivals) with ⟨l, t, hl, hs⟩ | ⟨l, t, hl, hs⟩
  · obtain ⟨f, fs, rfl, rfl, hafter⟩ := header_of_wire hl hs hcontent
    obtain ⟨u, rfl, hregister⟩ := readRegister_header (s := { stream := arrivals }) rfl hs
    rw [hs, hregister]
    by_cases hcmd : f.header.cmd = register
    · have hrelays : ¬ f.Relays := by
        rintro (h | h) <;> rw [hcmd] at h <;> revert h <;> decide
      have hregisters : Registers (f :: fs) := ⟨f, rfl, hcmd⟩
      rw [if_pos hcmd, imp_iff_right hregisters]
      by_cases hpayload : f.payload = []
      · have hs : f.header.marshal.map some ++ items u = f.bytes.map some ++ items u := by
          rw [Frame.bytes, hpayload, append_nil]
        rw [hpayload, nil_append] at hafter
        rw [hs, unburdened_whole, and_iff_right fun _ => hpayload]
        refine steps_aligned_iff (singleton_append).symm rfl rfl ?_ ?_ hafter
        · exact Option.some_ne_none _
        · simp [Frame.relayed, hrelays]
      · exact burdened (s := { stream := u, fromId := some _ }) (nil_append _).symm rfl rfl
          hrelays hpayload rfl hafter
    · rw [if_neg hcmd]
      refine iff_of_true (aligned_of_returned (nil_append _).symm rfl rfl rfl) ?_
      rintro ⟨g, hg, hreg⟩
      exact absurd (Option.some.inj hg ▸ hreg) hcmd
  · obtain ⟨err, t', hread, heof⟩ := readFull_cut (s := { stream := arrivals }) rfl hl hs
    rw [readRegister, hread]
    refine iff_of_true (aligned_of_failure (nil_append _).symm rfl rfl ?_) ?_
    · cases frames with
      | nil => exact fun _ _ => rfl
      | cons f fs =>
        refine rest_of_eof (l := l) (by rw [Frame.length_bytes]; omega) fun herr => ?_
        have hits : items arrivals = l.map some := heof herr
        rwa [bytesOf, hits, reduceOption_map_some] at hcontent
    · intro _ done g rest _ _ _
      rw [punctual_cut hs]
      omega

end BoltSession

end

/-- **Framing.** Frames are sent over a connection that brings some of their bytes, in portions of
any size and with expiries of the read deadline anywhere, before it ends. The client is aligned at
every call if and only if the deadline expires between frames only and no header of a frame arrives
that it declares too large; the relay is aligned at every round if and only if, after a
registration, no header of a frame arrives that has a payload and is not relayed. -/
theorem framing_iff (buffer : ℕ) (frames : List Frame) (arrivals : List Arrival)
    (missing : List UInt8) (h : bytesOf arrivals ++ missing = wire frames) :
    ((∀ n, Receiver.Aligned bytesOf buffer frames missing
        (Receiver.calls readFull buffer n { stream := arrivals })) ↔
      Undisturbed buffer frames (items arrivals)) ∧
    ((∀ n, BoltSession.Aligned bytesOf frames missing
        (BoltSession.steps readFull n { stream := arrivals })) ↔
      (Registers frames → Unburdened frames (items arrivals))) := by
  constructor
  · exact Receiver.calls_aligned_iff (nil_append _).symm rfl rfl h
  · exact BoltSession.session_aligned_iff h

namespace Lost

/-- A client registers as 7. -/
def hello : Frame := Frame.make 1 7 register [] (by decide)

def first : Frame := Frame.make 2 5 forward [1, 2] (by decide)

def second : Frame := Frame.make 3 5 forward [3] (by decide)

/-- A header, as the payload of a frame that asks for nothing. -/
def loaded : Frame := Frame.make 4 0 keepAlive (makeFrame 0 9 forward []) (by decide)

/-- The first frame comes in two portions, and the deadline expires between them. -/
def interrupted : List Arrival :=
  [.data (first.bytes.take 4), .expiry, .data (first.bytes.drop 4 ++ second.bytes)]

end Lost

open Lost in
/-- A registration and a frame, with a deadline that expires between them: the client reads them
as they were sent. -/
theorem framing_between_frames :
    Receiver.Aligned bytesOf 1500 [hello, first] []
      (Receiver.calls readFull 1500 3
        { stream := [.data hello.bytes, .expiry, .data first.bytes] }) := by
  have hsmall : ¬ hello.TooLarge 1500 ∧ ¬ first.TooLarge 1500 := by
    constructor <;> simp [Frame.TooLarge] <;> decide
  have hundisturbed : Undisturbed 1500 [hello, first]
      (items [.data hello.bytes, .expiry, .data first.bytes]) := by
    rw [items, undisturbed_whole, items, undisturbed_none_cons, items, undisturbed_whole]
    have hnil : Undisturbed 1500 [] [] :=
      (undisturbed_map_some (l := [])).mpr fun _ _ _ _ _ => Nat.succ_pos _
    exact ⟨hsmall.1, hsmall.2, hnil⟩
  exact (framing_iff 1500 [hello, first] _ [] (by decide)).1.mpr hundisturbed 3

open Lost in
/-- **Boundaries that are lost.** The client hands on neither frame if the deadline expires inside
of the first one, and not the second one if the first one is too large for its buffer. The relay
hands on a frame that nobody has sent. -/
theorem boundaries_lost :
    [first, second].filterMap (Frame.received 1500) = [.packet [1, 2] 5, .packet [3] 5] ∧
      (Receiver.calls readFull 1500 9 { stream := interrupted }).received = [] ∧
      [first, second].filterMap (Frame.received 1) = [.packet [3] 5] ∧
      (Receiver.calls readFull 1 9 { stream := [.data (wire [first, second])] }).received = [] ∧
      [hello, loaded].filterMap Frame.relayed = [] ∧
      (BoltSession.steps readFull 9 { stream := [.data (wire [hello, loaded])] }).relayed =
        [(9, makeFrame 0 9 forward [])] := by
  refine ⟨?_, ?_, ?_, ?_, ?_, ?_⟩ <;> decide +kernel

end Wireflow.Relay
