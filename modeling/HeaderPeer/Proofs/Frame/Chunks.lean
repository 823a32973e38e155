/-
  HeaderPeer.Proofs.Frame.Chunks — a receiver says of a stream what its parse says, in whatever
  chunks the stream comes in.

  The state of a receiver is told from the bytes of the unfinished frame alone (`holding`): how far
  the frame has come decides the stage, and what was not taken off yet is the buffer.  Adding a
  chunk and taking out all messages leads from the rest of one stream to the rest of the longer one
  (`drain_feed`), and the parse of the longer stream is put together in the same way
  (`Frame.parse_append`); so the cuts cannot be seen.

  Main statement: `drainAll_eq_parse`.
-/
import HeaderPeer.Proofs.Frame.Parse

namespace HeaderPeer

open HeaderPeer.Frame

/-! ## §1. The stage of a frame in progress -/

/-- How far a frame has come of which the bytes `bs` are there. -/
def Stage.ofBytes (bs : Bytes) : Stage :=
  if bs.length < 4 then .magic
  else if bs.length < 16 then .command
  else if bs.length < 20 then .length (commandAt bs)
  else if bs.length < 24 then .checksum (commandAt bs) (lengthAt bs)
  else .payload (commandAt bs) (lengthAt bs) (checksumAt bs)

theorem Stage.headerBytes_ofBytes (bs : Bytes) :
    (ofBytes bs).headerBytes =
      if bs.length < 4 then 0
      else if bs.length < 16 then 4
      else if bs.length < 20 then 16
      else if bs.length < 24 then 20
      else 24 := by
  unfold ofBytes
  split_ifs <;> rfl

theorem Stage.headerBytes_ofBytes_le (bs : Bytes) : (ofBytes bs).headerBytes ≤ bs.length := by
  rw [headerBytes_ofBytes]
  split_ifs <;> omega

theorem Stage.headerBytes_ofBytes_mono {bs more : Bytes} (h : bs.length ≤ more.length) :
    (ofBytes bs).headerBytes ≤ (ofBytes more).headerBytes := by
  rw [headerBytes_ofBytes, headerBytes_ofBytes]
  split_ifs <;> omega

/-! ## §2. Attempts -/

namespace Attempt

/-- The attempt that finds the frame `bs` as it stands at the front of a stream; the input begins
`start` bytes into the frame, and `taken` bytes were used up before it. -/
def ofFront (peer : Peer) (taken start : Nat) (bs : Bytes) : Front → Attempt
  | .unfinished =>
    let header := (Stage.ofBytes bs).headerBytes
    wait (.ofBytes bs) peer (taken + (header - start)) (bs.length - header)
  | .broken error wasted => fail error (peer.waste wasted)
  | .whole m received wasted size =>
    { result := .ok ⟨taken + (size - start), taken + (size - start), some m⟩
      stage := .magic
      peer := (peer.waste wasted).receive received }

variable {f : Framing} {peer : Peer} {bs : Bytes}

/-- More of a frame that has its first fields is used up from wherever the input begins. -/
theorem ofFront_add (taken start more : Nat) (result : Front)
    (hheader : start + more ≤ (Stage.ofBytes bs).headerBytes)
    (hsize : ∀ m received wasted size, result = .whole m received wasted size →
      start + more ≤ size) :
    ofFront peer (taken + more) (start + more) bs result = ofFront peer taken start bs result := by
  cases result with
  | unfinished =>
    have hsum : taken + more + ((Stage.ofBytes bs).headerBytes - (start + more))
        = taken + ((Stage.ofBytes bs).headerBytes - start) := by omega
    simp only [ofFront, hsum]
  | broken error wasted => rfl
  | whole m received wasted size =>
    have hle := hsize m received wasted size rfl
    have hsum : taken + more + (size - (start + more)) = taken + (size - start) := by omega
    simp only [ofFront, hsum]

/-- The header of a frame belongs to it. -/
theorem le_size_of_front {l : Wire.Layout} {n : Nat} (hn : n ≤ 24) :
    ∀ m received wasted size, front f l bs = .whole m received wasted size → n ≤ size := by
  intro m received wasted size h
  have hsize := (size_of_front_whole h).1
  omega

theorem payload_eq (taken : Nat) (hlen : 24 ≤ bs.length) (hfit : lengthAt bs ≤ f.maxPayload.toNat) :
    payload f peer (commandAt bs) (lengthAt bs) (checksumAt bs) taken (bs.drop 24)
      = ofFront peer taken 24 bs (front f peer.layout bs) := by
  have hstage : Stage.ofBytes bs = .payload (commandAt bs) (lengthAt bs) (checksumAt bs) := by
    rw [Stage.ofBytes, if_neg (by omega), if_neg (by omega), if_neg (by omega), if_neg (by omega)]
  unfold payload front
  simp only
  rw [if_neg (by omega : ¬ bs.length < 20), if_neg (by omega : ¬ f.maxPayload.toNat < lengthAt bs)]
  by_cases hshort : bs.length < 24 + lengthAt bs
  · -- the payload is not there yet
    rw [if_pos hshort, if_pos (by rw [Bytes.isShorter_iff, List.length_drop]; omega)]
    simp [ofFront, hstage, Stage.headerBytes]
  · rw [if_neg hshort, if_neg (by rw [Bytes.isShorter_iff, List.length_drop]; omega)]
    -- the payload is there, and both sides judge it by its sum and then by its command
    show (if f.hasher.checksum (payloadAt bs) ≠ checksumAt bs then _ else _) = _
    by_cases hsum : f.hasher.checksum (payloadAt bs) ≠ checksumAt bs
    · rw [if_pos hsum, if_pos hsum]
      show fail _ peer = fail _ (peer.waste 0)
      rw [Peer.waste_zero]
      rfl
    · rw [if_neg hsum, if_neg hsum]
      have hsize : Protocol.frameHeaderSize + (payloadAt bs).length = 24 + lengthAt bs := by
        rw [length_payloadAt (by omega)]
        rfl
      show decode f peer (commandAt bs) (payloadAt bs) (taken + lengthAt bs) = _
      unfold decode
      simp only [hsize]
      cases Kind.ofCommand? (commandAt bs) with
      | none => simp [ofFront]
      | some kind =>
        simp only
        cases Message.decode f.hasher peer.layout kind (payloadAt bs) with
        | ok m => simp [ofFront]
        | error cause => rfl

theorem checksum_eq (taken : Nat) (hlen : 20 ≤ bs.length)
    (hfit : lengthAt bs ≤ f.maxPayload.toNat) :
    checksum f peer (commandAt bs) (lengthAt bs) taken (bs.drop 20)
      = ofFront peer taken 20 bs (front f peer.layout bs) := by
  unfold checksum
  by_cases hshort : bs.length < 24
  · -- without a whole header there is no whole payload either
    have hfront : front f peer.layout bs = .unfinished := by
      unfold front
      simp only
      rw [if_neg (by omega), if_neg (by omega), if_pos (by omega)]
    rw [hfront, if_pos (by rw [Bytes.isShorter_iff, List.length_drop]; omega)]
    simp [ofFront, Stage.ofBytes, Stage.headerBytes, hshort, show ¬ bs.length < 4 by omega,
      show ¬ bs.length < 16 by omega, show ¬ bs.length < 20 by omega]
  · have hheader : (Stage.ofBytes bs).headerBytes = 24 := by
      rw [Stage.headerBytes_ofBytes]
      split_ifs <;> omega
    rw [if_neg (by rw [Bytes.isShorter_iff, List.length_drop]; omega), List.drop_drop]
    show payload f peer (commandAt bs) (lengthAt bs) (checksumAt bs) (taken + 4) (bs.drop 24) = _
    rw [payload_eq (taken + 4) (by omega) hfit,
      ofFront_add taken 20 4 _ (by omega) (le_size_of_front (by omega))]

theorem length_eq (taken : Nat) (hlen : 16 ≤ bs.length) :
    length f peer (commandAt bs) taken (bs.drop 16)
      = ofFront peer taken 16 bs (front f peer.layout bs) := by
  unfold length
  by_cases hshort : bs.length < 20
  · rw [front_of_short hshort, if_pos (by rw [Bytes.isShorter_iff, List.length_drop]; omega)]
    simp [ofFront, Stage.ofBytes, Stage.headerBytes, hshort, show ¬ bs.length < 4 by omega,
      show ¬ bs.length < 16 by omega]
  · have hheader : 20 ≤ (Stage.ofBytes bs).headerBytes := by
      rw [Stage.headerBytes_ofBytes]
      split_ifs <;> omega
    rw [if_neg (by rw [Bytes.isShorter_iff, List.length_drop]; omega), List.drop_drop]
    show (if f.maxPayload.toNat < lengthAt bs then _
      else checksum f peer (commandAt bs) (lengthAt bs) (taken + 4) (bs.drop 20)) = _
    by_cases hlarge : f.maxPayload.toNat < lengthAt bs
    · -- the length is judged at once, before the sum and the payload are there
      have hfront : front f peer.layout bs
          = .broken (.payloadTooLarge (lengthAt bs) f.maxPayload) 0 := by
        unfold front
        simp only
        rw [if_neg hshort, if_pos hlarge]
      rw [hfront, if_pos hlarge]
      show fail _ peer = fail _ (peer.waste 0)
      rw [Peer.waste_zero]
      rfl
    · rw [if_neg hlarge, checksum_eq (taken + 4) (by omega) (by omega),
        ofFront_add taken 16 4 _ (by omega) (le_size_of_front (by omega))]

theorem command_eq (taken : Nat) (hlen : 4 ≤ bs.length) :
    command f peer taken (bs.drop 4) = ofFront peer taken 4 bs (front f peer.layout bs) := by
  unfold command
  by_cases hshort : bs.length < 16
  · rw [front_of_short (by omega), if_pos (by
      rw [Bytes.isShorter_iff, List.length_drop, Protocol.commandSize]
      omega)]
    simp [ofFront, Stage.ofBytes, Stage.headerBytes, hshort, show ¬ bs.length < 4 by omega]
  · have hheader : 16 ≤ (Stage.ofBytes bs).headerBytes := by
      rw [Stage.headerBytes_ofBytes]
      split_ifs <;> omega
    rw [if_neg (by
      rw [Bytes.isShorter_iff, List.length_drop, Protocol.commandSize]
      omega), List.drop_drop]
    show length f peer (commandAt bs) (taken + 12) (bs.drop 16) = _
    rw [length_eq (taken + 12) (by omega),
      ofFront_add taken 4 12 _ (by omega) (le_size_of_front (by omega))]

/-- **An attempt from the start finds the frame behind the next magic.** -/
theorem magic_eq (f : Framing) (peer : Peer) (bs : Bytes) :
    magic f peer bs =
      ofFront (peer.waste (f.magic.skip bs)) (f.magic.skip bs) 0 (bs.drop (f.magic.skip bs))
        (front f peer.layout (bs.drop (f.magic.skip bs))) := by
  have hle := Magic.skip_le f.magic bs
  unfold magic Magic.search
  rw [Magic.searchFrom_eq, Nat.zero_add]
  by_cases hhere : f.magic.toList <+: bs.drop (f.magic.skip bs)
  · -- the magic is there, and the attempt goes on with the command behind it
    have hlong := hhere.length_le
    rw [Vector.length_toList] at hlong
    have hheader : 4 ≤ (Stage.ofBytes (bs.drop (f.magic.skip bs))).headerBytes := by
      rw [Stage.headerBytes_ofBytes]
      split_ifs <;> omega
    rw [if_pos hhere]
    show command f (peer.waste (f.magic.skip bs)) (f.magic.skip bs + 4)
      (bs.drop (f.magic.skip bs + 4)) = _
    rw [← List.drop_drop, command_eq (f.magic.skip bs + 4) hlong, Peer.layout_waste]
    exact ofFront_add _ 0 4 _ hheader (le_size_of_front (by omega))
  · -- fewer than four bytes are left, so the frame has not begun
    have hshort : (bs.drop (f.magic.skip bs)).length < 4 := by
      by_contra hlong
      exact hhere ((Magic.meets_drop_skip f.magic bs).begins (by omega))
    have hstage : Stage.ofBytes (bs.drop (f.magic.skip bs)) = .magic := by
      rw [Stage.ofBytes, if_pos hshort]
    rw [if_neg hhere, front_of_short (by omega)]
    -- a part of the magic is kept, or nothing is left
    by_cases hcut : f.magic.skip bs < bs.length
    · rw [if_pos hcut]
      simp [ofFront, hstage]
    · have hend : f.magic.skip bs = bs.length := by omega
      have hempty : Stage.ofBytes [] = .magic := rfl
      rw [if_neg hcut, hend]
      simp [ofFront, hempty]

end Attempt

/-! ## §3. Receivers within a stream -/

namespace Receiver

open HeaderPeer.Frame

variable {f : Framing} {peer : Peer} {rest : Bytes}

/-- The receiver that has taken in all of a stream up to the rest `rest`. -/
def holding (peer : Peer) (rest : Bytes) : Receiver where
  stage := .ofBytes rest
  buffer := rest.drop (Stage.ofBytes rest).headerBytes
  peer

/-- Before the first byte there is nothing to hold. -/
theorem holding_nil (peer : Peer) : holding peer [] = ofPeer peer := rfl

/-- What is taken off a rest is taken off the front of the stream that the rest goes on as. -/
theorem buffer_feed (peer : Peer) (rest more : Bytes) :
    ((holding peer rest).feed more).buffer
      = (rest ++ more).drop (Stage.ofBytes rest).headerBytes :=
  (List.drop_append_of_le_length (Stage.headerBytes_ofBytes_le rest)).symm

/-- The fields taken off a rest are those of the stream that the rest goes on as, so it does not
matter that they were taken earlier. -/
theorem ofStage_feed (hrest : Unfinished f peer.layout rest) (more : Bytes) :
    Attempt.ofStage f peer ((holding peer rest).feed more).buffer (.ofBytes rest)
      = Attempt.ofFront (peer.waste (f.magic.skip (rest ++ more))) (f.magic.skip (rest ++ more))
          (Stage.ofBytes rest).headerBytes ((rest ++ more).drop (f.magic.skip (rest ++ more)))
          (front f peer.layout ((rest ++ more).drop (f.magic.skip (rest ++ more)))) := by
  have hlen : (rest ++ more).length = rest.length + more.length := List.length_append
  rw [buffer_feed]
  by_cases hmagic : rest.length < 4
  · have hstage : Stage.ofBytes rest = .magic := by
      rw [Stage.ofBytes, if_pos hmagic]
    rw [hstage]
    exact Attempt.magic_eq f peer (rest ++ more)
  · -- the magic was found already, and every field that was taken off is still the same
    have hskip := Magic.skip_append_of_begun hrest.1 (by omega) more
    have hcommand : 16 ≤ rest.length → commandAt (rest ++ more) = commandAt rest := fun h => by
      rw [commandAt, field_append more (by omega), commandAt]
    have hsize : 20 ≤ rest.length → lengthAt (rest ++ more) = lengthAt rest :=
      lengthAt_append more
    have hsum : 24 ≤ rest.length → checksumAt (rest ++ more) = checksumAt rest := fun h =>
      field_append more (by omega)
    have hfit : 20 ≤ rest.length → lengthAt (rest ++ more) ≤ f.maxPayload.toNat := fun h => by
      rw [hsize h]
      exact lengthAt_le_of_unfinished h hrest.2
    rw [hskip, Peer.waste_zero, List.drop_zero]
    unfold Stage.ofBytes
    rw [if_neg hmagic]
    -- one case for each stage after the first
    by_cases h16 : rest.length < 16
    · rw [if_pos h16]
      exact Attempt.command_eq 0 (by omega)
    · rw [if_neg h16, ← hcommand (by omega)]
      by_cases h20 : rest.length < 20
      · rw [if_pos h20]
        exact Attempt.length_eq 0 (by omega)
      · rw [if_neg h20, ← hsize (by omega)]
        by_cases h24 : rest.length < 24
        · rw [if_pos h24]
          exact Attempt.checksum_eq 0 (by omega) (hfit (by omega))
        · rw [if_neg h24, ← hsum (by omega)]
          exact Attempt.payload_eq 0 (by omega) (hfit (by omega))

/-- The fields that were taken off a rest belong to the frame that the search comes to when more
bytes follow. -/
theorem headerBytes_le_of_meets (hmeets : Magic.Meets f.magic.toList rest) (more : Bytes) :
    (Stage.ofBytes rest).headerBytes
      ≤ (Stage.ofBytes ((rest ++ more).drop (f.magic.skip (rest ++ more)))).headerBytes := by
  by_cases hmagic : rest.length < 4
  · rw [Stage.headerBytes_ofBytes, if_pos hmagic]
    exact Nat.zero_le _
  · refine Stage.headerBytes_ofBytes_mono ?_
    rw [Magic.skip_append_of_begun hmeets (by omega) more, List.drop_zero, List.length_append]
    omega

theorem next_of_attempt {r : Receiver} {a : Attempt}
    (h : Attempt.ofStage f r.peer r.buffer r.stage = a) :
    r.next f =
      match a.result with
      | .ok p => (.ok p.message, ⟨a.stage, r.buffer.drop p.consumed, a.peer⟩)
      | .error e => (.error e, ⟨a.stage, r.buffer, a.peer⟩) := by
  simp only [next, attempt, h]
  cases a.result <;> rfl

/-- A receiver within a stream looks for the next message where the parse of the stream looks for
the next frame; behind a whole frame it is as good as new. -/
theorem next_feed (hrest : Unfinished f peer.layout rest) (more : Bytes) :
    let stream := rest ++ more
    let skipped := f.magic.skip stream
    ((holding peer rest).feed more).next f =
      match front f peer.layout (stream.drop skipped) with
      | .unfinished => (.ok none, holding (peer.waste skipped) (stream.drop skipped))
      | .broken error wasted =>
        (.error error,
          { stage := .magic
            buffer := stream.drop (Stage.ofBytes rest).headerBytes
            peer := peer.waste (skipped + wasted) })
      | .whole m received wasted size =>
        (.ok (some m),
          (holding ((peer.waste (skipped + wasted)).receive received) []).feed
            (stream.drop (skipped + size))) := by
  intro stream skipped
  have hheader : (Stage.ofBytes rest).headerBytes
      ≤ (Stage.ofBytes (stream.drop skipped)).headerBytes :=
    headerBytes_le_of_meets hrest.1 more
  rw [next_of_attempt (ofStage_feed hrest more), buffer_feed]
  match hfront : front f peer.layout (stream.drop skipped) with
  | .unfinished =>
    -- the attempt took off the fields between `before` and `now`
    let before := (Stage.ofBytes rest).headerBytes
    let now := (Stage.ofBytes (stream.drop skipped)).headerBytes
    have htaken : before + (skipped + (now - before)) = skipped + now := by omega
    show (Except.ok none, Receiver.mk (.ofBytes (stream.drop skipped))
      ((stream.drop before).drop (skipped + (now - before))) (peer.waste skipped)) = _
    rw [List.drop_drop, htaken, holding, List.drop_drop]
  | .broken error wasted =>
    show (Except.error error, Receiver.mk .magic _ ((peer.waste skipped).waste wasted)) = _
    rw [← Peer.waste_add]
  | .whole m received wasted size =>
    -- the attempt took off the frame from `before` on
    let before := (Stage.ofBytes rest).headerBytes
    have hsize := (size_of_front_whole hfront).1
    have hle := (Stage.ofBytes rest).headerBytes_le
    have htaken : before + (skipped + (size - before)) = skipped + size := by omega
    show (Except.ok (some m), Receiver.mk .magic
      ((stream.drop before).drop (skipped + (size - before)))
      (((peer.waste skipped).waste wasted).receive received)) = _
    rw [List.drop_drop, htaken, ← Peer.waste_add]
    rfl

/-! ## §4. Draining -/

/-- The peer `start` once all bytes of a parse are booked. -/
def booked (start : Peer) (p : Parse) : Peer := (start.waste p.wasted).receive p.received

theorem booked_andThen (start : Peer) {p : Parse} (q : Parse) (h : p.error = none) :
    booked start (p.andThen q) = booked (booked start p) q := by
  simp only [booked, Parse.andThen, h]
  rw [Peer.waste_add, Peer.receive_add, Peer.waste_receive]

/-- What came of draining a receiver is what a parse says: the messages and the error, the peer with
all bytes booked and, if the stream can be followed, the receiver. -/
structure Says (outcome : Receiver × List Message × Option FrameError) (start : Peer) (p : Parse) :
    Prop where
  messages : outcome.2.1 = p.messages
  error : outcome.2.2 = p.error
  peer : outcome.1.peer = booked start p
  held : p.error = none → outcome.1 = holding (booked start p) p.rest

/-- What drained after a stream that could be followed says what the longer stream does. -/
theorem Says.andThen {r : Receiver} {ms : List Message} {start : Peer} {p q : Parse}
    {outcome : Receiver × List Message × Option FrameError} (hp : Says (r, ms, none) start p)
    (hq : Says outcome r.peer q) :
    Says (outcome.1, ms ++ outcome.2.1, outcome.2.2) start (p.andThen q) := by
  have hok : p.error = none := hp.error.symm
  -- the bytes of the first stream are booked by then, and those of the second are booked on top
  have hbooked : booked start (p.andThen q) = booked r.peer q := by
    rw [booked_andThen start q hok, hp.peer]
  refine ⟨?_, ?_, ?_, ?_⟩
  · simp only [Parse.andThen, hok, ← hp.messages, ← hq.messages]
  · simp only [Parse.andThen, hok, ← hq.error]
  · rw [hbooked]
    exact hq.peer
  · rw [hbooked]
    simp only [Parse.andThen, hok]
    exact hq.held

/-- Behind a stream that ends with a frame a receiver holds nothing. -/
theorem Says.eq_of_ends {outcome : Receiver × List Message × Option FrameError} {start : Peer}
    {ms : List Message} {received wasted : Nat}
    (h : Says outcome start ⟨ms, none, received, wasted, []⟩) :
    outcome = (ofPeer ((start.waste wasted).receive received), ms, none) :=
  Prod.ext (h.held rfl) (Prod.ext h.messages h.error)

/-- The messages of the buffer are those of the stream from the rest on.  The induction is on the
frames of the stream. -/
theorem drain_feed {peer : Peer} {rest : Bytes} (hrest : Unfinished f peer.layout rest)
    (more : Bytes) :
    Says (((holding peer rest).feed more).drain f) peer (parse f peer.layout (rest ++ more)) := by
  have hnext := next_feed hrest more
  simp only at hnext
  match h : front f peer.layout ((rest ++ more).drop (f.magic.skip (rest ++ more))) with
  | .unfinished =>
    rw [h] at hnext
    rw [drain_of_none hnext, parse_of_unfinished h]
    refine ⟨rfl, rfl, ?_, fun _ => ?_⟩ <;> simp [booked, holding]
  | .broken error wasted =>
    rw [h] at hnext
    rw [drain_of_error hnext, parse_of_broken h]
    refine ⟨rfl, rfl, ?_, fun hok => nomatch hok⟩
    simp [booked]
  | .whole m received wasted size =>
    have hshorter := (length_of_whole h).2
    rw [h] at hnext
    rw [drain_of_some hnext, parse_of_whole h]
    -- behind the frame the receiver is a new one, with nothing of the next frame taken off
    let p : Parse := ⟨[m], none, received, f.magic.skip (rest ++ more) + wasted, []⟩
    have hframe : Says (holding (booked peer p) [], [m], none) peer p :=
      ⟨rfl, rfl, rfl, fun _ => rfl⟩
    exact hframe.andThen (drain_feed (unfinished_nil f (booked peer p).layout)
      ((rest ++ more).drop (f.magic.skip (rest ++ more) + size)))
termination_by (rest ++ more).length
decreasing_by
  rw [List.nil_append, List.length_drop]
  exact hshorter

/-! ## §5. Chunks -/

/-- Takes in a stream chunk by chunk and takes out all messages after each, up to the first
error. -/
def drainAll (f : Framing) (r : Receiver) :
    List Bytes → Receiver × List Message × Option FrameError
  | [] => (r, [], none)
  | chunk :: chunks =>
    match (r.feed chunk).drain f with
    | (r, ms, some e) => (r, ms, some e)
    | (r, ms, none) =>
      let (r, more, error) := drainAll f r chunks
      (r, ms ++ more, error)

theorem drainAll_holding (f : Framing) (chunks : List Bytes) {peer : Peer} {rest : Bytes}
    (hrest : Unfinished f peer.layout rest) :
    Says ((holding peer rest).drainAll f chunks) peer
      (parse f peer.layout (rest ++ chunks.flatten)) := by
  induction chunks generalizing peer rest with
  | nil =>
    rw [List.flatten_nil, List.append_nil, parse_of_rest hrest]
    refine ⟨rfl, rfl, ?_, fun _ => ?_⟩ <;> simp [booked, drainAll, holding]
  | cons chunk chunks ih =>
    have hdrain := drain_feed hrest chunk
    rw [List.flatten_cons, ← List.append_assoc, parse_append, drainAll]
    match h : ((holding peer rest).feed chunk).drain f with
    | (r, ms, some e) =>
      -- behind an error a parse does not go on
      rw [h] at hdrain
      have hstop : ∀ q, (parse f peer.layout (rest ++ chunk)).andThen q
          = parse f peer.layout (rest ++ chunk) := fun q => by
        rw [Parse.andThen, ← hdrain.error]
      rw [hstop]
      exact hdrain
    | (r, ms, none) =>
      -- the receiver holds the rest of the stream so far, which is where the other chunks go on
      rw [h] at hdrain
      have hok := hdrain.error.symm
      have hheld : r = holding (booked peer (parse f peer.layout (rest ++ chunk)))
          (parse f peer.layout (rest ++ chunk)).rest := hdrain.held hok
      refine hdrain.andThen ?_
      rw [hheld]
      exact ih (unfinished_rest f peer.layout (rest ++ chunk) hok)

/-- **However a stream is cut, a receiver says of it what its parse says**: the same messages, the
same first error and the same counts of bytes; and after a stream that can be followed it is in the
state that the rest of the stream determines. -/
theorem drainAll_eq_parse (f : Framing) (peer : Peer) (chunks : List Bytes) :
    Says ((ofPeer peer).drainAll f chunks) peer (parse f peer.layout chunks.flatten) := by
  rw [← holding_nil]
  exact drainAll_holding f chunks (unfinished_nil f peer.layout)

end Receiver

end HeaderPeer
