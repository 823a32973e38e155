/-
  HeaderPeer.Proofs.Frame.Progress — how far the attempts of a receiver come in a stream.

  An attempt is told nothing but the bytes behind those that the attempts before it used up, and it
  answers with two numbers: how many of these it used up, and how many it looked at.  Added to
  where it began, they are two places in the stream.  Between attempts the places say how the stream
  stands (`Polls`): a frame in progress begins somewhere, its fields up to the first place were
  taken off, and its bytes up to the second one do not make it whole.  Nobody but the receiver
  changes this; the peer may be another one at every call, as when a version was agreed upon.

  Main statements:
    * `comes_of_attempt` — what a call comes to that does not fail: it waits, or takes a message.
    * `attempts_progress` — the two places never move back, a message moves both to the end of its
      frame, and asking again without more bytes changes nothing.
-/
import HeaderPeer.Network
import HeaderPeer.Proofs.Frame.Chunks

namespace HeaderPeer

open HeaderPeer.Frame

/-! ## §1. No whole frame -/

namespace Frame

/-- The bytes begin with the magic, or are a part of it, and they are too few for the length of a
frame or for all of a frame of that length. -/
structure Incomplete (f : Framing) (bs : Bytes) : Prop where
  meets : Magic.Meets f.magic.toList bs
  short : bs.length < 20 ∨ lengthAt bs ≤ f.maxPayload.toNat ∧ bs.length < 24 + lengthAt bs

/-- Whether bytes are waited for does not depend on the layout of payloads. -/
theorem Incomplete.unfinished {f : Framing} {bs : Bytes} (h : Incomplete f bs) (l : Wire.Layout) :
    Unfinished f l bs :=
  ⟨h.meets, front_eq_unfinished_iff.2 h.short⟩

theorem incomplete_nil (f : Framing) : Incomplete f [] :=
  ⟨.inr List.nil_prefix, .inl (by decide)⟩

/-- A frame that becomes whole by more bytes ends behind those that were there. -/
theorem Incomplete.length_le_of_whole {f : Framing} {l : Wire.Layout} {bs more : Bytes}
    {m : Message} {received wasted size : Nat} (h : Incomplete f bs)
    (hwhole : front f l ((bs ++ more).drop (f.magic.skip (bs ++ more)))
      = .whole m received wasted size) :
    bs.length ≤ f.magic.skip (bs ++ more) + size := by
  obtain ⟨hsize, -, -⟩ := front_whole_cases hwhole
  by_cases hshort : bs.length < 20
  · omega
  · -- the frame began with these bytes, and they say its length
    have hskip := Magic.skip_append_of_begun h.meets (by omega) more
    rw [hskip, List.drop_zero, lengthAt_append more (by omega)] at hsize
    rcases h.short with hshort' | ⟨-, hpart⟩ <;> omega

end Frame

namespace Receiver

variable {f : Framing} {peer : Peer} {stream rest more : Bytes} {r r' : Receiver} {p : Progress}
  {consumed examined : Nat}

/-! ## §2. One call -/

/-- A receiver that took the fields off a frame in progress looks at the frame as if it did so for
the first time. -/
theorem attempt_eq (hrest : Incomplete f rest) (hstage : r.stage = .ofBytes rest) (more : Bytes) :
    r.attempt f ((rest ++ more).drop r.stage.headerBytes) =
      let skipped := f.magic.skip (rest ++ more)
      let held := (rest ++ more).drop skipped
      let a := Attempt.ofFront (r.peer.waste skipped) skipped r.stage.headerBytes held
        (front f r.peer.layout held)
      (a.result, { r with stage := a.stage, peer := a.peer }) := by
  have hattempt := ofStage_feed (hrest.unfinished r.peer.layout) more
  rw [buffer_feed, ← hstage] at hattempt
  simp only [attempt, hattempt]

/-- What a call comes to that does not fail: `pending` is the frame in progress and all that
follows it, and `before` bytes of it were taken off earlier. -/
inductive Comes (f : Framing) (peer : Peer) (pending : Bytes) (before : Nat) :
    Progress → Stage → Prop where
  /-- More bytes are needed: all were looked at, and a frame in progress is held. -/
  | waits {p : Progress} (skipped : Nat) (hskip : f.magic.skip pending = skipped)
    (hheld : Incomplete f (pending.drop skipped))
    (hconsumed : before + p.consumed = skipped + (Stage.ofBytes (pending.drop skipped)).headerBytes)
    (hexamined : before + p.examined = pending.length) (hnone : p.message = none) :
    Comes f peer pending before p (.ofBytes (pending.drop skipped))
  /-- A frame is whole: nothing behind it was looked at. -/
  | takes {p : Progress} (skipped received wasted size : Nat) (m : Message)
    (hskip : f.magic.skip pending = skipped) (hmagic : f.magic.toList <+: pending.drop skipped)
    (hwhole : front f peer.layout (pending.drop skipped) = .whole m received wasted size)
    (hconsumed : before + p.consumed = skipped + size) (hexamined : p.examined = p.consumed)
    (hsome : p.message = some m) : Comes f peer pending before p .magic

/-- **A call that does not fail waits, or takes a message.** -/
theorem comes_of_attempt (hrest : Incomplete f rest) (hstage : r.stage = .ofBytes rest)
    (hcall : r.attempt f ((rest ++ more).drop r.stage.headerBytes) = (.ok p, r')) :
    Comes f r.peer (rest ++ more) r.stage.headerBytes p r'.stage := by
  let skipped := f.magic.skip (rest ++ more)
  let held := (rest ++ more).drop skipped
  have hskipped : skipped ≤ (rest ++ more).length := Magic.skip_le f.magic _
  have hmeets : Magic.Meets f.magic.toList held := Magic.meets_drop_skip f.magic _
  have hlength : held.length = (rest ++ more).length - skipped := List.length_drop
  rw [attempt_eq hrest hstage more] at hcall
  simp only at hcall
  match hfront : front f r.peer.layout held with
  | .unfinished =>
    -- the fields that were taken off before are among those that are taken off now
    have hbefore : r.stage.headerBytes ≤ (Stage.ofBytes held).headerBytes := by
      rw [hstage]
      exact headerBytes_le_of_meets hrest.meets more
    have hheader := Stage.headerBytes_ofBytes_le held
    rw [hfront] at hcall
    cases hcall
    refine .waits skipped rfl ⟨hmeets, front_eq_unfinished_iff.1 hfront⟩ ?_ ?_ rfl
    · show r.stage.headerBytes
        + (skipped + ((Stage.ofBytes held).headerBytes - r.stage.headerBytes))
        = skipped + (Stage.ofBytes held).headerBytes
      omega
    · show r.stage.headerBytes
        + (skipped + ((Stage.ofBytes held).headerBytes - r.stage.headerBytes)
          + (held.length - (Stage.ofBytes held).headerBytes)) = (rest ++ more).length
      omega
  | .broken error wasted =>
    rw [hfront] at hcall
    cases hcall
  | .whole m received wasted size =>
    have hsize := size_of_front_whole hfront
    have hbefore := r.stage.headerBytes_le
    rw [hfront] at hcall
    cases hcall
    refine .takes skipped received wasted size m rfl (hmeets.begins (by omega)) hfront ?_ rfl rfl
    show r.stage.headerBytes + (skipped + (size - r.stage.headerBytes)) = _
    omega

/-- A receiver that holds a frame in progress, and is given no more than it was given before, waits
on as it is. -/
theorem attempt_of_held (hrest : Incomplete f rest) (hstage : r.stage = .ofBytes rest) :
    r.attempt f (rest.drop r.stage.headerBytes)
      = (.ok ⟨0, (rest.drop r.stage.headerBytes).length, none⟩, r) := by
  have hattempt := attempt_eq hrest hstage []
  have hfront : front f r.peer.layout rest = .unfinished := (hrest.unfinished _).2
  simp only [List.append_nil, Magic.skip_of_meets hrest.meets, List.drop_zero, hfront,
    Peer.waste_zero] at hattempt
  rw [hattempt]
  simp only [Attempt.ofFront, Attempt.wait, ← hstage, Nat.sub_self, Nat.add_zero, Nat.zero_add,
    List.length_drop]

/-! ## §3. Calls in a row -/

/-- A receiver came to the stage `stage` by attempts none of which failed.  Before each of them more
of the stream came in, or nothing, and the attempt was given what the stream had behind the bytes
that were used up by then.  The attempts came to two places in the stream: up to `consumed` its
bytes are used up, and up to `examined` the last attempt looked. -/
inductive Polled (f : Framing) : Bytes → Stage → Nat → Nat → Prop where
  | start : Polled f [] .magic 0 0
  /-- Peer and buffer are as they may be by then; an attempt on an input does not read the buffer. -/
  | call {stream : Bytes} {stage : Stage} {consumed examined : Nat} {p : Progress} {r r' : Receiver}
    (h : Polled f stream stage consumed examined) (chunk : Bytes) (hstage : r.stage = stage)
    (hcall : r.attempt f ((stream ++ chunk).drop consumed) = (.ok p, r')) :
    Polled f (stream ++ chunk) r'.stage (consumed + p.consumed) (consumed + p.examined)

/-- To ask for the next message of the buffer is to make an attempt on it, and then to drop what the
attempt used up. -/
theorem attempt_of_next {m : Option Message} (h : r.next f = (.ok m, r')) :
    ∃ p, r.attempt f r.buffer = (.ok p, { r' with buffer := r.buffer }) ∧ p.message = m
      ∧ r'.buffer = r.buffer.drop p.consumed := by
  unfold next at h
  split at h
  · next p r'' hcall =>
    cases h
    have hbuffer : r''.buffer = r.buffer := by
      have hreceiver := (Prod.ext_iff.1 hcall).2
      simp only [attempt] at hreceiver
      rw [← hreceiver]
    refine ⟨p, ?_, rfl, ?_⟩
    · rw [hcall, ← hbuffer]
    · rw [hbuffer]
  · cases h

/-- So a receiver that holds in its buffer what the stream has behind the bytes that are used up
keeps doing so, and its calls are calls of this kind. -/
theorem Polled.next {stage : Stage} (h : Polled f stream stage consumed examined) (chunk : Bytes)
    (hstage : r.stage = stage) (hbuffer : r.buffer = (stream ++ chunk).drop consumed)
    {m : Option Message} (hnext : r.next f = (.ok m, r')) :
    ∃ p, r.attempt f ((stream ++ chunk).drop consumed) = (.ok p, { r' with buffer := r.buffer })
      ∧ p.message = m
      ∧ Polled f (stream ++ chunk) r'.stage (consumed + p.consumed) (consumed + p.examined)
      ∧ r'.buffer = (stream ++ chunk).drop (consumed + p.consumed) := by
  obtain ⟨p, hcall, hmessage, hdrop⟩ := attempt_of_next hnext
  rw [hbuffer, List.drop_drop] at hdrop
  rw [hbuffer] at hcall ⊢
  have hpolled := h.call chunk hstage hcall
  exact ⟨p, hcall, hmessage, hpolled, hdrop⟩

/-- The stage of a receiver and the two places agree on how the stream stands: some of it was
passed, then comes a frame in progress, `rest`, which was looked at to its end, and what follows was
not looked at. -/
def Polls (f : Framing) (stream : Bytes) (stage : Stage) (consumed examined : Nat) : Prop :=
  ∃ passed rest more, stream = passed ++ (rest ++ more) ∧ Incomplete f rest
    ∧ stage = .ofBytes rest ∧ consumed = passed.length + stage.headerBytes
    ∧ examined = passed.length + rest.length

theorem polls_ofPeer (f : Framing) : Polls f [] .magic 0 0 :=
  ⟨[], [], [], rfl, incomplete_nil f, rfl, rfl, rfl⟩

theorem Polls.feed {stage : Stage} (h : Polls f stream stage consumed examined) (chunk : Bytes) :
    Polls f (stream ++ chunk) stage consumed examined := by
  obtain ⟨passed, rest, more, rfl, hrest, hstage, hconsumed, hexamined⟩ := h
  refine ⟨passed, rest, more ++ chunk, ?_, hrest, hstage, hconsumed, hexamined⟩
  simp only [List.append_assoc]

/-- Where the stream stands after a call, which looked at `pending` from byte `before` on. -/
theorem Comes.polls {passed pending : Bytes} {before : Nat} {stage : Stage}
    (h : Comes f peer pending before p stage) :
    Polls f (passed ++ pending) stage (passed.length + before + p.consumed)
      (passed.length + before + p.examined) := by
  cases h with
  | waits skipped hskip hheld hconsumed hexamined hnone =>
    -- what the search passed over was passed, and the rest is a frame in progress
    have hskipped := Magic.skip_le f.magic pending
    have htake : (pending.take skipped).length = skipped := by
      rw [List.length_take]
      omega
    refine ⟨passed ++ pending.take skipped, pending.drop skipped, [], ?_, hheld, rfl, ?_, ?_⟩
    · rw [List.append_nil, List.append_assoc, List.take_append_drop]
    · rw [List.length_append, htake]
      omega
    · rw [List.length_append, htake, List.length_drop]
      omega
  | takes skipped received wasted size m hskip hmagic hwhole hconsumed hexamined hsome =>
    -- the frame was passed as well, and of what follows it nothing was looked at
    have hin := (length_of_whole hwhole).1
    have htake : (pending.take (skipped + size)).length = skipped + size := by
      rw [List.length_take]
      omega
    refine ⟨passed ++ pending.take (skipped + size), [], pending.drop (skipped + size), ?_,
      incomplete_nil f, rfl, ?_, ?_⟩
    · rw [List.nil_append, List.append_assoc, List.take_append_drop]
    · rw [List.length_append, htake, Stage.headerBytes_magic]
      omega
    · rw [List.length_append, htake, List.length_nil]
      omega

/-- What is behind the bytes that are used up begins within the frame in progress. -/
theorem drop_consumed {passed pending : Bytes} (before : Nat) :
    (passed ++ pending).drop (passed.length + before) = pending.drop before := by
  rw [← List.drop_drop, List.drop_left]

/-- **Attempts keep to how the stream stands.** -/
theorem Polled.polls {stage : Stage} (h : Polled f stream stage consumed examined) :
    Polls f stream stage consumed examined := by
  induction h with
  | start => exact polls_ofPeer f
  | call _ chunk hstage hcall ih =>
    subst hstage
    obtain ⟨passed, rest, more, hstream, hrest, hstage, rfl, -⟩ := ih.feed chunk
    rw [hstream] at hcall ⊢
    rw [drop_consumed] at hcall
    exact (comes_of_attempt hrest hstage hcall).polls

/-! ## §4. Progress -/

/-- What there is to say of a call that did not fail, at a place in the stream where the calls
before it came to `consumed` and `examined`. -/
structure Advances (f : Framing) (stream : Bytes) (consumed examined : Nat) (r : Receiver)
    (p : Progress) (r' : Receiver) : Prop where
  within : p.consumed ≤ p.examined ∧ p.examined ≤ (stream.drop consumed).length
  /-- Without a message, everything was looked at. -/
  searched : p.message = none → consumed + p.examined = stream.length
  /-- Neither place in the stream moves back. -/
  forward : consumed ≤ consumed + p.consumed ∧ examined ≤ consumed + p.examined
  /-- With a message, both places are the end of its frame, which is the frame in progress or one
  that begins behind the bytes that were used up. -/
  message : ∀ m, p.message = some m → p.consumed = p.examined
    ∧ ∃ start size received wasted, consumed ≤ start + r.stage.headerBytes
      ∧ consumed + p.consumed = start + size
      ∧ f.magic.toList <+: field start size stream
      ∧ front f r.peer.layout (field start size stream) = .whole m received wasted size
  /-- Without a message, another call on what is not used up finds nothing and changes nothing. -/
  again : p.message = none → ∀ r'' : Receiver, r''.stage = r'.stage →
    r''.attempt f (stream.drop (consumed + p.consumed))
      = (.ok ⟨0, (stream.drop (consumed + p.consumed)).length, none⟩, r'')

/-- **A call brings a receiver on.** -/
theorem advances_of_attempt (h : Polls f stream r.stage consumed examined)
    (hcall : r.attempt f (stream.drop consumed) = (.ok p, r')) :
    Advances f stream consumed examined r p r' := by
  obtain ⟨passed, rest, more, rfl, hrest, hstage, rfl, rfl⟩ := h
  have hheader : r.stage.headerBytes ≤ rest.length := by
    rw [hstage]
    exact Stage.headerBytes_ofBytes_le rest
  have hinput : ((passed ++ (rest ++ more)).drop (passed.length + r.stage.headerBytes)).length
      = (rest ++ more).length - r.stage.headerBytes := by
    rw [drop_consumed, List.length_drop]
  have hlength : (rest ++ more).length = rest.length + more.length := List.length_append
  rw [drop_consumed] at hcall
  have hcomes := comes_of_attempt hrest hstage hcall
  generalize hstage' : r'.stage = stage' at hcomes
  cases hcomes with
  | waits skipped hskip hheld hconsumed hexamined hnone =>
    have hskipped := Magic.skip_le f.magic (rest ++ more)
    have hheader' := Stage.headerBytes_ofBytes_le ((rest ++ more).drop skipped)
    rw [List.length_drop] at hheader'
    refine ⟨by omega, fun _ => ?_, by omega, ?_, ?_⟩
    · rw [List.length_append]
      omega
    · intro m hsome
      rw [hnone] at hsome
      cases hsome
    · -- what is not used up is the frame in progress from its first missing field on
      intro _ r'' hstage''
      have hsame : r''.stage = .ofBytes ((rest ++ more).drop skipped) := hstage''.trans hstage'
      rw [Nat.add_assoc, drop_consumed, hconsumed, ← List.drop_drop, ← hsame]
      exact attempt_of_held hheld hsame
  | takes skipped received wasted size m hskip hmagic hwhole hconsumed hexamined hsome =>
    have hin := (length_of_whole hwhole).1
    have hsize := (size_of_front_whole hwhole).1
    have hframe : field (passed.length + skipped) size (passed ++ (rest ++ more))
        = ((rest ++ more).drop skipped).take size := by
      rw [field, drop_consumed]
    refine ⟨by omega, ?_, ?_, ?_, ?_⟩
    · intro hnone
      rw [hsome] at hnone
      cases hnone
    · -- all that was looked at before belongs to this frame, or stands before it
      have hbehind := hrest.length_le_of_whole (hskip ▸ hwhole)
      omega
    · intro m' hsome'
      obtain rfl : m = m' := Option.some.inj (hsome.symm.trans hsome')
      refine ⟨hexamined.symm, passed.length + skipped, size, received, wasted, ?_, by omega, ?_, ?_⟩
      · omega
      · rw [hframe]
        refine List.prefix_take_iff.2 ⟨hmagic, ?_⟩
        rw [Vector.length_toList]
        omega
      · rw [hframe]
        exact front_take_of_whole hwhole
    · intro hnone
      rw [hsome] at hnone
      cases hnone

/-- When no message was found, all that waits is a frame in progress. -/
theorem Polls.incomplete {stage : Stage} (h : Polls f stream stage consumed examined)
    (hall : examined = stream.length) :
    ∃ passed rest, stream = passed ++ rest ∧ Incomplete f rest ∧ stage = .ofBytes rest
      ∧ stream.drop consumed = rest.drop stage.headerBytes := by
  obtain ⟨passed, rest, more, rfl, hrest, hstage, rfl, hexamined⟩ := h
  obtain rfl : more = [] := by
    rw [hall, List.length_append, List.length_append] at hexamined
    exact List.length_eq_zero_iff.1 (by omega)
  refine ⟨passed, rest, ?_, hrest, hstage, ?_⟩
  · rw [List.append_nil]
  · rw [drop_consumed, List.append_nil]

/-- **Attempts make progress, and asking again is harmless.**  Whatever came in before and comes in
now, and whatever else was done with the peer: a call that does not fail uses up no more than it
looks at and looks at no more than there is, the two places that it comes to in the stream are not
before those of the last call, and a message is given out at the end of its frame.  A call without a
message can be repeated.  So when the buffer gives no message, it gives none the next time either,
no whole frame is left in it, and at the end of the stream what is pending is booked once. -/
theorem attempts_progress {f : Framing} {stream : Bytes} {stage : Stage} {consumed examined : Nat}
    (h : Polled f stream stage consumed examined) (chunk : Bytes) {r : Receiver}
    (hstage : r.stage = stage) :
    (∀ p r', r.attempt f ((stream ++ chunk).drop consumed) = (.ok p, r') →
        Advances f (stream ++ chunk) consumed examined r p r')
      ∧ ∀ r', r.buffer = (stream ++ chunk).drop consumed → r.next f = (.ok none, r') →
        r'.next f = (.ok none, r')
          ∧ r'.finish f = (.ok none, .ofPeer (r'.peer.waste r'.pending))
          ∧ ∃ passed rest, stream ++ chunk = passed ++ rest ∧ r'.stage = .ofBytes rest
            ∧ r'.buffer = rest.drop r'.stage.headerBytes ∧ Incomplete f rest
            ∧ ∀ l, parse f l rest = ⟨[], none, 0, 0, rest⟩ := by
  subst hstage
  have hadvances : ∀ p r', r.attempt f ((stream ++ chunk).drop consumed) = (.ok p, r') →
      Advances f (stream ++ chunk) consumed examined r p r' := fun p r' =>
    advances_of_attempt (h.polls.feed chunk)
  refine ⟨hadvances, ?_⟩
  intro r' hbuffer hnext
  obtain ⟨p, hcall, hnone, hpolled, hdrop⟩ := h.next chunk rfl hbuffer hnext
  have hadvance := hadvances _ _ hcall
  have hagain : r'.next f = (.ok none, r') := by
    have hattempt := hadvance.again hnone r' rfl
    rw [← hdrop] at hattempt
    rw [next, hattempt]
    rfl
  have hfinish : r'.finish f = (.ok none, .ofPeer (r'.peer.waste r'.pending)) := by
    rw [finish, hagain]
  obtain ⟨passed, rest, hsplit, hrest, hheld, hwaits⟩ :=
    hpolled.polls.incomplete (hadvance.searched hnone)
  refine ⟨hagain, hfinish, passed, rest, hsplit, hheld, ?_, hrest,
    fun l => parse_of_rest (hrest.unfinished l)⟩
  exact hdrop.trans hwaits

/-- A byte that belongs to nothing, a magic, and the first byte of a command. -/
def verackBegun : Bytes := [0x00, 0xfa, 0xbf, 0xb5, 0xda, 0x76]

/-- The rest of the command, a payload of no bytes, and its sum. -/
def verackEnd : Bytes :=
  [0x65, 0x72, 0x61, 0x63, 0x6b, 0, 0, 0, 0, 0, 0, 0, 0, 0, 0, 0x5d, 0xf6, 0xe0, 0xe2]

/-- The first call passes over the byte and takes the magic off; nothing comes of asking again; and
the call after the next chunk ends where the frame does. -/
theorem verack_progress :
    let f := Framing.ofMagic Network.regtest.magic .doubleSha256
    let fresh := Peer.fresh ⟨1, "remote"⟩ false
    let r : Receiver := ⟨.command, [0x76], fresh.waste 1⟩
    Polled f verackBegun r.stage 5 6
      ∧ (⟨.magic, verackBegun, fresh⟩ : Receiver).next f = (.ok none, r) ∧ r.next f = (.ok none, r)
      ∧ ∃ r', r.attempt f ((verackBegun ++ verackEnd).drop 5) = (.ok ⟨20, 20, some .verack⟩, r')
        ∧ Advances f (verackBegun ++ verackEnd) 5 6 r ⟨20, 20, some .verack⟩ r' := by
  intro f fresh r
  have hfirst : (ofPeer fresh).attempt f (([] ++ verackBegun).drop 0)
      = (.ok ⟨5, 6, none⟩, { r with buffer := [] }) := rfl
  have hpolled : Polled f verackBegun r.stage 5 6 := Polled.start.call verackBegun rfl hfirst
  have hnext : (⟨.magic, verackBegun, fresh⟩ : Receiver).next f = (.ok none, r) := rfl
  have hstart : Polled f [] .magic 0 0 := .start
  obtain ⟨-, hnone⟩ := attempts_progress hstart verackBegun (r := ⟨.magic, verackBegun, fresh⟩) rfl
  obtain ⟨hadvances, -⟩ := attempts_progress hpolled verackEnd (r := r) rfl
  have hsecond : r.attempt f ((verackBegun ++ verackEnd).drop 5)
      = (.ok ⟨20, 20, some .verack⟩, (r.attempt f ((verackBegun ++ verackEnd).drop 5)).2) :=
    Prod.ext (by decide +kernel) rfl
  exact ⟨hpolled, hnext, (hnone r rfl hnext).1, _, hsecond, hadvances _ _ hsecond⟩

end Receiver

end HeaderPeer
