/-
# Frames at the client

The client loses the boundaries of frames when the deadline expires inside of a frame, since what
was read of it is forgotten, and when it declares a frame too large, since it leaves the payload in
the stream. `calls_aligned_iff` says that nothing else goes wrong, wherever the connection ends.
-/

import Wireflow.Relay.Streams

namespace Wireflow.Relay

open Go.Reader List
open Go.Reader renaming readFull → readBytes

/-! ## The notions -/

namespace Frame

/-- The client has no room for the payload. -/
def TooLarge (buffer : ℕ) (f : Frame) : Prop :=
  f.header.cmd = probe ∧ maxProbePayload < f.payload.length ∨
    f.header.cmd = forward ∧ buffer < f.payload.length

/-- What the client hands on of a frame. -/
def received (buffer : ℕ) (f : Frame) : Option Received :=
  if f.header.cmd = probe then
    if maxProbePayload < f.payload.length then none
    else some (.task f.header.toID.toUInt64 f.payload)
  else if f.header.cmd = forward then
    if buffer < f.payload.length then none
    else some (.packet f.payload f.header.toID.toUInt64)
  else none

end Frame

namespace Receiver

variable {σ : Type}

/-- The calls so far have handed on what the first frames hold, and the stream goes on with the
next frame. Nothing is left out when the connection has ended, unless bytes of it are missing. -/
def Aligned (content : σ → List UInt8) (buffer : ℕ) (frames : List Frame) (missing : List UInt8)
    (c : Receiver σ) : Prop :=
  ∃ done rest, frames = done ++ rest ∧ c.received = done.filterMap (Frame.received buffer) ∧
    (c.ended = false → content c.stream ++ missing = wire rest) ∧
    (c.ended = true → missing = [] → rest = [])

/-- A number of calls. -/
def calls (read : Read σ) (buffer : ℕ) (n : ℕ) (c : Receiver σ) : Receiver σ :=
  (fun c => (receive read buffer c).2)^[n] c

end Receiver

/-- The deadline expires between frames only, and no header arrives of a frame that is too
large. -/
structure Undisturbed (buffer : ℕ) (frames : List Frame) (s : List Item) : Prop where
  expiries : ∀ before after, s = before ++ none :: after →
    ∃ done rest, frames = done ++ rest ∧ before.reduceOption = wire done
  sizes : ∀ done f rest, frames = done ++ f :: rest → f.TooLarge buffer →
    s.reduceOption.length < (wire done).length + headerSize

section

variable {f : Frame} {frames fs done rest : List Frame} {s : List Item} {buffer : ℕ}
  {l missing : List UInt8}

/-! ## Frame boundaries -/

@[simp] theorem wire_nil : wire [] = [] := rfl

@[simp] theorem wire_cons : wire (f :: fs) = f.bytes ++ wire fs := rfl

@[simp] theorem wire_append : wire (done ++ rest) = wire done ++ wire rest :=
  flatMap_append

/-- Within `n` bytes there is no header of a frame with the property. -/
def NoHeader (P : Frame → Prop) (frames : List Frame) (n : ℕ) : Prop :=
  ∀ done f rest, frames = done ++ f :: rest → P f → n < (wire done).length + headerSize

section NoHeader

variable {P : Frame → Prop} {n : ℕ}

theorem noHeader_whole :
    NoHeader P (f :: fs) (f.bytes.length + n) ↔ ¬P f ∧ NoHeader P fs n := by
  constructor
  · intro h
    refine ⟨fun hf => ?_, fun done g rest hfs hg => ?_⟩
    · have hhead := h [] f fs rfl hf
      simp only [Frame.length_bytes, wire_nil, length_nil] at hhead
      omega
    · have hlater := h (f :: done) g rest (by rw [hfs, cons_append]) hg
      rw [wire_cons, length_append] at hlater
      omega
  · rintro ⟨hf, hfs⟩ done g rest hframes hg
    cases done with
    | nil =>
      rw [nil_append, cons.injEq] at hframes
      exact absurd (hframes.1 ▸ hg) hf
    | cons g' done =>
      rw [cons_append, cons.injEq] at hframes
      obtain ⟨rfl, hrest⟩ := hframes
      have hlater := hfs done g rest hrest hg
      rw [wire_cons, length_append]
      omega

/-- Of a frame that is not there as a whole, only the header matters. -/
theorem noHeader_cut (hshort : n < f.bytes.length) :
    NoHeader P (f :: fs) n ↔ (P f → n < headerSize) := by
  constructor
  · intro h hf
    simpa using h [] f fs rfl hf
  · intro h done g rest hframes hg
    cases done with
    | nil =>
      rw [nil_append, cons.injEq] at hframes
      simpa using h (hframes.1 ▸ hg)
    | cons g' done =>
      rw [cons_append, cons.injEq] at hframes
      rw [← hframes.1, wire_cons, length_append]
      omega

end NoHeader

/-- No frame begins inside of another one. -/
theorem no_boundary_inside {l : List UInt8} (hframes : frames = done ++ f :: fs)
    (hafter : (wire fs).length < l.length) (hbefore : l.length < (wire (f :: fs)).length)
    (done' rest' : List Frame) (hsplit : frames = done' ++ rest') : l ≠ wire rest' := by
  rintro rfl
  rw [hframes] at hsplit
  rcases append_eq_append_iff.mp hsplit with ⟨between, -, hrest⟩ | ⟨between, -, hrest⟩
  · -- the other suffix is shorter
    cases between with
    | nil =>
      rw [hrest] at hbefore
      exact lt_irrefl _ hbefore
    | cons g between =>
      rw [cons_append, cons.injEq] at hrest
      rw [hrest.2, wire_append, length_append] at hafter
      omega
  · rw [hrest, wire_append, length_append] at hbefore
    omega

/-- A header that is read at the beginning of a frame is the one of the frame. -/
theorem header_of_wire {its t : List Item} {missing : List UInt8} (hl : l.length = headerSize)
    (hs : its = l.map some ++ t) (h : its.reduceOption ++ missing = wire frames) :
    ∃ f fs, frames = f :: fs ∧ l = f.header.marshal ∧
      t.reduceOption ++ missing = f.payload ++ wire fs := by
  rw [hs, reduceOption_map_some_append, append_assoc] at h
  cases frames with
  | nil =>
    rw [(append_eq_nil_iff.mp h).1] at hl
    cases hl
  | cons f fs =>
    rw [wire_cons, Frame.bytes, append_assoc] at h
    obtain ⟨rfl, hafter⟩ := append_inj h (by rw [hl, length_marshal])
    exact ⟨f, fs, rfl, rfl, hafter⟩

/-- A property of all iterates, looked at one step later. -/
theorem forall_iterate {σ : Type} {P : σ → Prop} {next : σ → σ} {x : σ} :
    (∀ n, P (next^[n] x)) ↔ P x ∧ ∀ n, P (next^[n] (next x)) := by
  constructor
  · exact fun h => ⟨h 0, fun n => h (n + 1)⟩
  · rintro ⟨hzero, hsucc⟩ n
    cases n with
    | zero => exact hzero
    | succ n => exact hsucc n

theorem split_at_expiry {before after : List Item} (h : l.map some ++ s = before ++ none :: after) :
    ∃ before', before = l.map some ++ before' ∧ s = before' ++ none :: after := by
  rcases append_eq_append_iff.mp h with ⟨between, hbefore, hs⟩ | ⟨between, hl, hafter⟩
  · exact ⟨between, hbefore, hs⟩
  · cases between with
    | nil => exact ⟨[], by simpa using hl.symm, hafter.symm⟩
    | cons a between =>
      -- an expiry among the bytes
      rw [cons_append, cons.injEq] at hafter
      have hmem : none ∈ l.map some := by
        rw [hl, ← hafter.1]
        simp
      simp at hmem

/-! ## Streams without disturbance -/

/-- Without an expiry only sizes matter. -/
theorem undisturbed_map_some : Undisturbed buffer frames (l.map some) ↔
    NoHeader (Frame.TooLarge buffer) frames l.length := by
  have hbytes : (l.map some : List Item).reduceOption = l := reduceOption_map_some l
  constructor
  · intro h
    have hsizes := h.sizes
    rwa [hbytes] at hsizes
  · intro h
    refine ⟨fun before after hs => ?_, by rwa [hbytes]⟩
    have hmem : none ∈ l.map some := by
      rw [hs]
      simp
    simp at hmem

/-- An expiry between two frames does not disturb. -/
theorem undisturbed_none_cons :
    Undisturbed buffer frames (none :: s) ↔ Undisturbed buffer frames s := by
  constructor
  · rintro ⟨hexpiries, hsizes⟩
    refine ⟨fun before after h => ?_, hsizes⟩
    exact hexpiries (none :: before) after (by rw [h, cons_append])
  · rintro ⟨hexpiries, hsizes⟩
    refine ⟨fun before after h => ?_, hsizes⟩
    cases before with
    | nil => exact ⟨[], frames, rfl, rfl⟩
    | cons a before =>
      rw [cons_append, cons.injEq] at h
      rw [← h.1]
      exact hexpiries before after h.2

/-- A frame that has come whole and is not too large does not disturb. -/
theorem undisturbed_whole :
    Undisturbed buffer (f :: fs) (f.bytes.map some ++ s) ↔
      ¬ f.TooLarge buffer ∧ Undisturbed buffer fs s := by
  have hsizes : NoHeader (Frame.TooLarge buffer) (f :: fs)
        (f.bytes.map some ++ s).reduceOption.length ↔
      ¬ f.TooLarge buffer ∧ NoHeader (Frame.TooLarge buffer) fs s.reduceOption.length := by
    rw [reduceOption_map_some_append, length_append, noHeader_whole]
  constructor
  · intro h
    obtain ⟨hsmall, hrest⟩ := hsizes.mp h.sizes
    refine ⟨hsmall, fun before after hs => ?_, hrest⟩
    obtain ⟨done, rest, hframes, hbytes⟩ := h.expiries (f.bytes.map some ++ before) after
      (by rw [hs, append_assoc])
    rw [reduceOption_map_some_append] at hbytes
    cases done with
    | nil =>
      have hlength := congrArg length hbytes
      simp [headerSize] at hlength
    | cons g done =>
      rw [cons_append, cons.injEq] at hframes
      obtain ⟨rfl, hfs⟩ := hframes
      exact ⟨done, rest, hfs, append_cancel_left hbytes⟩
  · rintro ⟨hsmall, h⟩
    refine ⟨fun before after hs => ?_, hsizes.mpr ⟨hsmall, h.sizes⟩⟩
    obtain ⟨before', rfl, hsplit⟩ := split_at_expiry hs
    obtain ⟨done, rest, hfs, hbytes⟩ := h.expiries before' after hsplit
    exact ⟨f :: done, rest, by rw [hfs, cons_append], by simp [hbytes]⟩

/-- An expiry inside of a frame disturbs. -/
theorem not_undisturbed_expiry (hl : l ≠ []) (hshort : l.length < f.bytes.length) :
    ¬ Undisturbed buffer (f :: fs) (l.map some ++ none :: s) := by
  intro h
  obtain ⟨done, rest, hframes, hbytes⟩ := h.expiries (l.map some) s rfl
  rw [reduceOption_map_some] at hbytes
  cases done with
  | nil => exact hl hbytes
  | cons g done =>
    rw [cons_append, cons.injEq] at hframes
    rw [hbytes, wire_cons, ← hframes.1, length_append] at hshort
    omega

/-! ## Calls of the client -/

namespace Receiver

variable {c : Receiver (List Arrival)} {t : List Item} {n : ℕ}

/-- The client after a call. -/
def next (buffer : ℕ) (c : Receiver (List Arrival)) : Receiver (List Arrival) :=
  (receive readBytes buffer c).2

theorem readFull_whole (hl : l.length = n) (hs : items c.stream = l.map some ++ t) :
    ∃ s, c.readFull readBytes n = (.ok l, { c with stream := s }) ∧ items s = t := by
  obtain ⟨s, hread, ht⟩ := readFull_of_items (hs ▸ readItems_whole hl t)
  exact ⟨s, by rw [readFull, hread], ht⟩

theorem readFull_timeout (hl : l.length < n) (hs : items c.stream = l.map some ++ none :: t) :
    ∃ s, c.readFull readBytes n = (.error .timeout, { c with stream := s }) ∧ items s = t := by
  obtain ⟨s, hread, ht⟩ := readFull_of_items (hs ▸ readItems_timeout hl t)
  exact ⟨s, by rw [readFull, hread], ht⟩

theorem readFull_eof (hl : l.length < n) (hs : items c.stream = l.map some) :
    ∃ s, c.readFull readBytes n = (.error .eof, { c with stream := s, ended := true }) ∧
      items s = [] := by
  obtain ⟨s, hread, ht⟩ := readFull_of_items (hs ▸ readItems_eof hl)
  exact ⟨s, by rw [readFull, hread], ht⟩

variable (buffer) in
theorem next_header_timeout (hl : l.length < headerSize)
    (hs : items c.stream = l.map some ++ none :: t) :
    ∃ s, c.next buffer = { c with stream := s } ∧ items s = t := by
  obtain ⟨s, hread, ht⟩ := readFull_timeout hl hs
  exact ⟨s, by rw [next, receive, hread], ht⟩

variable (buffer) in
theorem next_header_eof (hl : l.length < headerSize) (hs : items c.stream = l.map some) :
    ∃ s, c.next buffer = { c with stream := s, ended := true } ∧ items s = [] := by
  obtain ⟨s, hread, ht⟩ := readFull_eof hl hs
  exact ⟨s, by rw [next, receive, hread], ht⟩

section

variable (hs : items c.stream = f.header.marshal.map some ++ t)

include hs

/-- The call after it has read the header of a frame. -/
theorem receive_header :
    ∃ s, items s = t ∧ receive readBytes buffer c =
      if f.header.cmd = probe then
        { c with stream := s }.readPayload readBytes maxProbePayload f.header 0 fun data =>
          .task f.header.toID.toUInt64 data
      else if f.header.cmd = forward then
        { c with stream := s }.readPayload readBytes buffer f.header 1 fun data =>
          .packet data f.header.toID.toUInt64
      else (.ok 0, ({ c with stream := s }.readFull readBytes f.header.payloadLen.toNat).2) := by
  obtain ⟨s, hread, ht⟩ := readFull_whole (length_marshal f.header) hs
  refine ⟨s, ht, ?_⟩
  rw [receive, hread]
  simp only [unmarshal_marshal]

/-- The payload of a frame that is too large stays in the stream. -/
theorem next_tooLarge (hlarge : f.TooLarge buffer) :
    ∃ s, c.next buffer = { c with stream := s } ∧ items s = t := by
  obtain ⟨s, ht, hcall⟩ := receive_header hs
  refine ⟨s, ?_, ht⟩
  rw [next, hcall]
  rcases hlarge with ⟨hcmd, hlen⟩ | ⟨hcmd, hlen⟩
  · rw [if_pos hcmd, readPayload, f.length_payload, if_pos hlen]
  · rw [if_neg (by rw [hcmd]; decide), if_pos hcmd, readPayload, f.length_payload, if_pos hlen]

/-- A payload that cannot be read leaves nothing behind. -/
theorem next_payload_error (hsmall : ¬ f.TooLarge buffer) :
    ∃ s, items s = t ∧ ∀ err c', { c with stream := s }.readFull readBytes f.payload.length =
      (.error err, c') → c.next buffer = c' := by
  obtain ⟨s, ht, hcall⟩ := receive_header hs
  refine ⟨s, ht, fun err c' hread => ?_⟩
  rw [next, hcall]
  unfold readPayload
  rw [f.length_payload, hread]
  split_ifs with hprobe hlen hforward hlen
  · exact absurd (.inl ⟨hprobe, hlen⟩) hsmall
  · rfl
  · exact absurd (.inr ⟨hforward, hlen⟩) hsmall
  · rfl
  · rfl

end

/-- A frame that is there and not too large is handed on. -/
theorem next_whole (hs : items c.stream = f.bytes.map some ++ t) (hsmall : ¬ f.TooLarge buffer) :
    ∃ s, c.next buffer =
      { c with stream := s, received := c.received ++ (f.received buffer).toList } ∧
      items s = t := by
  rw [Frame.bytes, map_append, append_assoc] at hs
  obtain ⟨s, hs', hcall⟩ := receive_header hs
  obtain ⟨s', hread, ht⟩ := readFull_whole (c := { c with stream := s }) rfl hs'
  refine ⟨s', ?_, ht⟩
  rw [next, hcall]
  unfold readPayload Frame.received
  rw [f.length_payload, hread]
  split_ifs with hprobe hlen hforward hlen
  · exact absurd (.inl ⟨hprobe, hlen⟩) hsmall
  · rfl
  · exact absurd (.inr ⟨hforward, hlen⟩) hsmall
  · rfl
  · simp

/-! ## Alignment of the client -/

/-- A client whose stream goes on inside of a frame is not aligned. -/
theorem not_aligned_inside {s : List Arrival} (hframes : frames = done ++ f :: fs)
    (hended : c.ended = false) (ht : items s = t)
    (hafter : (wire fs).length < (t.reduceOption ++ missing).length)
    (hbefore : (t.reduceOption ++ missing).length < (wire (f :: fs)).length) :
    ¬ Aligned bytesOf buffer frames missing { c with stream := s } := by
  rintro ⟨done', rest', hsplit, -, hcontent, -⟩
  subst ht
  exact no_boundary_inside hframes hafter hbefore done' rest' hsplit (hcontent hended)

/-- A call at the end of the connection, or one that comes to it inside of a frame. -/
theorem aligned_of_ended (hframes : frames = done ++ rest)
    (hreceived : c.received = done.filterMap (Frame.received buffer))
    (hstream : items c.stream = []) (hended : c.ended = true)
    (hmissing : missing = [] → rest = []) (n : ℕ) :
    Aligned bytesOf buffer frames missing (calls readBytes buffer n c) := by
  induction n generalizing c with
  | zero =>
    refine ⟨done, rest, hframes, hreceived, fun (h : c.ended = false) => ?_, fun _ => hmissing⟩
    rw [hended] at h
    cases h
  | succ n ih =>
    obtain ⟨s, hcall, hs⟩ := next_header_eof buffer (l := []) (by decide) hstream
    exact ih (c := c.next buffer) (by rw [hcall]; exact hreceived) (by rw [hcall]; exact hs)
      (by rw [hcall])

section Header

variable (hframes : frames = done ++ f :: fs) (hended : c.ended = false)
  (hs : items c.stream = f.header.marshal.map some ++ t)
  (hafter : t.reduceOption ++ missing = f.payload ++ wire fs)

include hframes hs hafter

/-- The connection ends inside of the payload. -/
theorem aligned_cut_iff (hreceived : c.received = done.filterMap (Frame.received buffer))
    (hsmall : ¬ f.TooLarge buffer) (hl : l.length < f.payload.length) (ht : t = l.map some) :
    (∀ n, Aligned bytesOf buffer frames missing (calls readBytes buffer n (c.next buffer))) ↔
      Undisturbed buffer (f :: fs) (items c.stream) := by
  subst ht
  obtain ⟨s, hs', hcall⟩ := next_payload_error hs hsmall
  obtain ⟨s', hread, ht⟩ := readFull_eof (c := { c with stream := s }) hl hs'
  have hshort : (f.header.marshal ++ l).length < f.bytes.length := by
    rw [length_append, length_marshal, Frame.length_bytes]
    omega
  rw [hcall _ _ hread, hs, ← map_append, undisturbed_map_some, noHeader_cut hshort]
  refine iff_of_true (aligned_of_ended hframes hreceived ht rfl ?_) fun h => absurd h hsmall
  rintro rfl
  have hlength := congrArg length hafter
  simp only [reduceOption_map_some, append_nil, length_append] at hlength
  omega

include hended

/-- The deadline expires inside of the payload. -/
theorem aligned_expired_iff {t' : List Item} (hsmall : ¬ f.TooLarge buffer)
    (hl : l.length < f.payload.length) (ht : t = l.map some ++ none :: t') :
    (∀ n, Aligned bytesOf buffer frames missing (calls readBytes buffer n (c.next buffer))) ↔
      Undisturbed buffer (f :: fs) (items c.stream) := by
  subst ht
  obtain ⟨s, hs', hcall⟩ := next_payload_error hs hsmall
  obtain ⟨s', hread, ht⟩ := readFull_timeout (c := { c with stream := s }) hl hs'
  have hheader := length_marshal f.header
  have hlength := congrArg length hafter
  simp only [reduceOption_map_some_append, reduceOption_cons_of_none, length_append] at hlength
  rw [hcall _ _ hread, hs, ← append_assoc, ← map_append]
  refine iff_of_false (fun h => ?_) (not_undisturbed_expiry ?_ ?_)
  · refine not_aligned_inside hframes hended ht ?_ ?_ (h 0) <;>
      simp only [length_append, wire_cons, Frame.length_bytes, headerSize] <;> omega
  · exact ne_nil_of_length_pos (by rw [length_append, hheader, headerSize]; omega)
  · rw [length_append, hheader, Frame.length_bytes]
    omega

/-- The payload of a frame that is too large is taken for the next frame. -/
theorem aligned_tooLarge_iff (hlarge : f.TooLarge buffer) :
    (∀ n, Aligned bytesOf buffer frames missing (calls readBytes buffer n (c.next buffer))) ↔
      Undisturbed buffer (f :: fs) (items c.stream) := by
  have hpayload : 0 < f.payload.length := by
    rcases hlarge with ⟨-, hlen⟩ | ⟨-, hlen⟩ <;> omega
  obtain ⟨s, hcall, ht⟩ := next_tooLarge hs hlarge
  rw [hcall]
  refine iff_of_false (fun h => ?_) fun h => ?_
  · refine not_aligned_inside hframes hended ht ?_ ?_ (h 0) <;> rw [hafter] <;>
      simp only [length_append, wire_cons, Frame.length_bytes, headerSize] <;> omega
  · have hshort := h.sizes [] f fs rfl hlarge
    rw [hs, reduceOption_map_some_append, length_append, length_marshal] at hshort
    simp at hshort

end Header

/-- **The client.** From a frame boundary on, all calls are aligned if and only if nothing
disturbs. -/
theorem calls_aligned_iff (hframes : frames = done ++ rest) (hended : c.ended = false)
    (hreceived : c.received = done.filterMap (Frame.received buffer))
    (hcontent : bytesOf c.stream ++ missing = wire rest) :
    (∀ n, Aligned bytesOf buffer frames missing (calls readBytes buffer n c)) ↔
      Undisturbed buffer rest (items c.stream) := by
  -- by induction on what is left of the stream
  induction hk : (items c.stream).length using Nat.strong_induction_on generalizing c done rest with
  | _ k ih =>
  have hnow : Aligned bytesOf buffer frames missing c :=
    ⟨done, rest, hframes, hreceived, fun _ => hcontent, fun h => by simp [hended] at h⟩
  rw [show (∀ n, Aligned bytesOf buffer frames missing (calls readBytes buffer n c)) ↔
    _ ∧ ∀ n, Aligned _ _ _ _ (calls readBytes buffer n (c.next buffer)) from forall_iterate,
    and_iff_right hnow]
  rw [bytesOf] at hcontent
  rcases items_cases headerSize (items c.stream) with
    ⟨l, t, hl, hs⟩ | ⟨l, t, hl, hs⟩ | ⟨l, hl, hs⟩
  · -- the header is there
    obtain ⟨f, fs, rfl, rfl, hafter⟩ := header_of_wire hl hs hcontent
    by_cases hlarge : f.TooLarge buffer
    · exact aligned_tooLarge_iff hframes hended hs hafter hlarge
    · rcases items_cases f.payload.length t with ⟨l, t', hl', ht⟩ | ⟨l, t', hl', ht⟩ | ⟨l, hl', ht⟩
      · -- and so is the payload
        rw [ht, reduceOption_map_some_append, append_assoc] at hafter
        obtain ⟨rfl, hnext⟩ := append_inj hafter hl'
        have hs : items c.stream = f.bytes.map some ++ t' := by
          rw [hs, ht, Frame.bytes, map_append, append_assoc]
        obtain ⟨s, hcall, rfl⟩ := next_whole hs hlarge
        rw [hcall, hs, undisturbed_whole, and_iff_right hlarge]
        have hless : (items s).length < k := by
          rw [← hk, hs, length_append, length_map, Frame.length_bytes, headerSize]
          omega
        have hframes' : frames = (done ++ [f]) ++ fs := by
          rw [hframes, append_assoc, singleton_append]
        refine ih _ hless hframes' hended ?_ hnext rfl
        rw [filterMap_append, ← hreceived]
        cases hf : f.received buffer <;> simp [hf]
      · exact aligned_expired_iff hframes hended hs hafter hlarge hl' ht
      · exact aligned_cut_iff hframes hs hafter hreceived hlarge hl' ht
  · -- the deadline expires before the header is there
    obtain ⟨s, hcall, rfl⟩ := next_header_timeout buffer hl hs
    rw [hs, reduceOption_map_some_append, reduceOption_cons_of_none, append_assoc] at hcontent
    rw [hcall, hs]
    cases l with
    | nil =>
      rw [map_nil, nil_append, undisturbed_none_cons]
      rw [hs] at hk
      exact ih _ (by rw [← hk]; exact Nat.lt_succ_self _) hframes hended hreceived hcontent rfl
    | cons b l =>
      cases rest with
      | nil => cases hcontent
      | cons f fs =>
        have hlength := congrArg length hcontent
        simp only [length_append, wire_cons, length_cons] at hlength hl
        refine iff_of_false (fun h => ?_) (not_undisturbed_expiry (cons_ne_nil _ _) ?_)
        · refine not_aligned_inside hframes hended rfl ?_ ?_ (h 0) <;>
            simp only [length_append, wire_cons, Frame.length_bytes] at * <;> omega
        · rw [length_cons, Frame.length_bytes]
          omega
  · -- the connection ends before the header is there
    obtain ⟨s, hcall, ht⟩ := next_header_eof buffer hl hs
    rw [hs, reduceOption_map_some] at hcontent
    rw [hcall, hs, undisturbed_map_some]
    refine iff_of_true (aligned_of_ended hframes hreceived ht rfl ?_) fun _ _ _ _ _ => by omega
    rintro rfl
    cases rest with
    | nil => rfl
    | cons f fs =>
      have hlength := congrArg length hcontent
      simp only [append_nil, wire_cons, length_append, Frame.length_bytes] at hlength
      omega

end Receiver

end

end Wireflow.Relay
