/-
  HeaderPeer.Proofs.Frame.Conservation — no byte is lost and none is counted twice.

  Bytes are booked in many places: those before a magic when they are passed over, those of a frame
  when it is whole, those of a frame that was cut off when the stream ends; and the fields of a
  frame leave the buffer long before they are booked.  All these places agree on one picture
  (`Stands`): a stream is what was passed, then what is pending.  What was passed is booked; what is
  pending is held as fields or waits in the buffer.  Every call on a receiver keeps to the picture.

  Main statements:
    * `stands_next`, `stands_finish` — a call that does not fail moves bytes from pending to passed.
    * `bytes_conserved` — the account of a receiver after any calls.
-/
import HeaderPeer.Network
import HeaderPeer.Proofs.Frame.Chunks
import Mathlib.Algebra.Group.Nat.Defs

namespace HeaderPeer

open HeaderPeer.Frame

namespace Receiver

variable {f : Framing} {start peer : Peer} {stream rest more : Bytes} {r r' : Receiver}

/-! ## §1. What is pending -/

theorem feed_feed (r : Receiver) (bs more : Bytes) :
    (r.feed bs).feed more = r.feed (bs ++ more) := by
  simp only [feed, List.append_assoc]

theorem feed_nil (r : Receiver) : r.feed [] = r := by
  simp only [feed, List.append_nil]

/-- Fields and buffer together are what has not been passed. -/
theorem pending_holding (peer : Peer) (rest more : Bytes) :
    ((holding peer rest).feed more).pending = (rest ++ more).length := by
  have hheader := Stage.headerBytes_ofBytes_le rest
  show ((holding peer rest).feed more).buffer.length + (Stage.ofBytes rest).headerBytes = _
  rw [buffer_feed, List.length_drop, List.length_append]
  omega

/-- The receiver stands in the stream: some bytes were passed, and each of them is booked; with the
next ones, `rest`, no message could be made, but their fields were taken off; and `more` was not
looked at. -/
def Stands (f : Framing) (start : Peer) (stream : Bytes) (r : Receiver) : Prop :=
  ∃ passed rest more received wasted, stream = passed ++ (rest ++ more)
    ∧ passed.length = received + wasted
    ∧ Unfinished f start.layout rest
    ∧ r = (holding ((start.waste wasted).receive received) rest).feed more

/-! ## §2. Calls -/

theorem stands_ofPeer (f : Framing) (start : Peer) : Stands f start [] (ofPeer start) := by
  refine ⟨[], [], [], 0, 0, rfl, rfl, unfinished_nil f start.layout, ?_⟩
  rw [Peer.waste_zero, Peer.receive_zero, feed_nil, holding_nil]

theorem stands_feed (h : Stands f start stream r) (chunk : Bytes) :
    Stands f start (stream ++ chunk) (r.feed chunk) := by
  obtain ⟨passed, rest, more, received, wasted, rfl, hpassed, hrest, rfl⟩ := h
  refine ⟨passed, rest, more ++ chunk, received, wasted, ?_, hpassed, hrest, ?_⟩
  · simp only [List.append_assoc]
  · rw [feed_feed]

/-- More bytes are booked behind those that are. -/
theorem booked_more (start : Peer) (received wasted received' wasted' : Nat) :
    ((((start.waste wasted).receive received).waste wasted').receive received')
      = (start.waste (wasted + wasted')).receive (received + received') := by
  rw [Peer.waste_receive, ← Peer.waste_add, ← Peer.receive_add]

/-- **A call for the next message moves bytes from pending to passed, and books them.** -/
theorem stands_next (h : Stands f start stream r) {m : Option Message}
    (hnext : r.next f = (.ok m, r')) : Stands f start stream r' := by
  obtain ⟨passed, rest, more, received, wasted, rfl, hpassed, hrest, rfl⟩ := h
  let peer := (start.waste wasted).receive received
  let pending := rest ++ more
  let skipped := f.magic.skip pending
  have hskip : skipped ≤ pending.length := Magic.skip_le f.magic pending
  -- what was passed, and the first `n` bytes of what was pending
  have hsplit : ∀ n, passed ++ pending = passed ++ pending.take n ++ pending.drop n := by
    intro n
    rw [List.append_assoc, List.take_append_drop]
  have hunfinished : Unfinished f peer.layout rest := hrest
  have hresult := next_feed hunfinished more
  simp only at hresult
  match hfront : front f start.layout (pending.drop skipped) with
  | .unfinished =>
    rw [show front f peer.layout _ = .unfinished from hfront, hnext] at hresult
    cases hresult
    refine ⟨passed ++ pending.take skipped, pending.drop skipped, [], received, wasted + skipped,
      ?_, ?_, ⟨Magic.meets_drop_skip f.magic pending, hfront⟩, ?_⟩
    · rw [List.append_nil]
      exact hsplit skipped
    · rw [List.length_append, List.length_take]
      omega
    · rw [feed_nil, ← Nat.add_zero received, ← booked_more, Peer.receive_zero]
  | .broken error more' =>
    rw [show front f peer.layout _ = .broken error more' from hfront, hnext] at hresult
    cases hresult
  | .whole m' received' wasted' size =>
    have hin := (length_of_whole hfront).1
    have hbooked := front_whole_booked hfront
    rw [show front f peer.layout _ = .whole m' received' wasted' size from hfront, hnext]
      at hresult
    cases hresult
    refine ⟨passed ++ pending.take (skipped + size), [], pending.drop (skipped + size),
      received + received', wasted + (skipped + wasted'), ?_, ?_, unfinished_nil f start.layout, ?_⟩
    · exact hsplit (skipped + size)
    · rw [List.length_append, List.length_take]
      omega
    · rw [← booked_more]

theorem finish_cases {m : Option Message} (h : r.finish f = (.ok m, r')) :
    (∃ m', m = some m' ∧ r.next f = (.ok (some m'), r'))
      ∨ m = none
        ∧ ∃ r'', r.next f = (.ok none, r'') ∧ r' = ofPeer (r''.peer.waste r''.pending) := by
  unfold finish at h
  split at h
  · next r'' hnext =>
    cases h
    exact .inr ⟨rfl, r'', hnext, rfl⟩
  · next hsome =>
    cases m with
    | none => exact absurd h (hsome r')
    | some m' => exact .inl ⟨m', rfl, h⟩

/-- **At the end of a stream what is pending is booked as well**, and the receiver is a new one. -/
theorem stands_finish (h : Stands f start stream r) {m : Option Message}
    (hfinish : r.finish f = (.ok m, r')) :
    Stands f start stream r'
      ∧ (m = none → ∃ received wasted, stream.length = received + wasted
          ∧ r' = ofPeer ((start.waste wasted).receive received)) := by
  rcases finish_cases hfinish with ⟨m', rfl, hnext⟩ | ⟨rfl, r'', hnext, rfl⟩
  · exact ⟨stands_next h hnext, fun hnone => nomatch hnone⟩
  · obtain ⟨passed, rest, more, received, wasted, rfl, hpassed, hrest, rfl⟩ := stands_next h hnext
    let pending := rest ++ more
    have hall : (passed ++ pending).length = received + (wasted + pending.length) := by
      rw [List.length_append]
      omega
    have hpeer : (((start.waste wasted).receive received).waste pending.length)
        = (start.waste (wasted + pending.length)).receive received := by
      rw [Peer.waste_receive, ← Peer.waste_add]
    rw [pending_holding]
    show Stands f start _ (ofPeer (((start.waste wasted).receive received).waste pending.length))
      ∧ (_ → ∃ received' wasted', _ ∧ ofPeer (((start.waste wasted).receive received).waste
          pending.length) = _)
    rw [hpeer]
    refine ⟨⟨passed ++ pending, [], [], received, wasted + pending.length, ?_, hall,
      unfinished_nil f start.layout, ?_⟩, fun _ => ⟨received, wasted + pending.length, hall, rfl⟩⟩
    · rw [List.append_nil, List.append_nil]
    · rw [feed_nil, holding_nil]

/-! ## §3. The account -/

/-- The receiver `r` came out of `start` by calls none of which failed: chunks were taken in, all of
them together `stream`, and messages were asked for, at the end of the stream or before. -/
inductive Follows (f : Framing) (start : Receiver) : Bytes → Receiver → Prop where
  | start : Follows f start [] start
  | feed {stream : Bytes} {r : Receiver} (chunk : Bytes) (h : Follows f start stream r) :
    Follows f start (stream ++ chunk) (r.feed chunk)
  | next {stream : Bytes} {r r' : Receiver} {m : Option Message} (h : Follows f start stream r)
    (hnext : r.next f = (.ok m, r')) : Follows f start stream r'
  | finish {stream : Bytes} {r r' : Receiver} {m : Option Message} (h : Follows f start stream r)
    (hfinish : r.finish f = (.ok m, r')) : Follows f start stream r'

/-- Whatever the calls were, the receiver stands in the stream. -/
theorem Follows.stands (h : Follows f (ofPeer start) stream r) : Stands f start stream r := by
  induction h with
  | start => exact stands_ofPeer f start
  | feed chunk _ ih => exact stands_feed ih chunk
  | next _ hnext ih => exact stands_next ih hnext
  | finish _ hfinish ih => exact (stands_finish ih hfinish).1

/-- Every byte of the stream is booked, is held as part of a field, or waits in the buffer. -/
structure Accounted (stream : Bytes) (r : Receiver) : Prop where
  /-- The counters count in words. -/
  words : UInt64.ofNat stream.length
    = r.peer.traffic.received + r.peer.traffic.wasted + UInt64.ofNat r.stage.headerBytes
      + UInt64.ofNat r.buffer.length
  /-- As long as no counter can start again at zero, the numbers themselves add up. -/
  numbers : stream.length < 2 ^ 64 → stream.length
    = r.peer.traffic.received.toNat + r.peer.traffic.wasted.toNat + r.stage.headerBytes
      + r.buffer.length
  header : r.stage.headerBytes ∈ [0, 4, 16, 20, 24]
  /-- The fields that are held are the first ones of a frame that the stream came to, and the buffer
  begins behind them. -/
  fields : ∃ passed rest more, stream = passed ++ (rest ++ more) ∧ r.stage = .ofBytes rest
    ∧ r.buffer = (rest ++ more).drop r.stage.headerBytes

theorem traffic_booked (hfresh : start.traffic = .none) (received wasted : Nat) :
    ((start.waste wasted).receive received).traffic.received = UInt64.ofNat received
      ∧ ((start.waste wasted).receive received).traffic.wasted = UInt64.ofNat wasted := by
  simp only [Peer.receive, Peer.waste, Traffic.receive, Traffic.waste, hfresh, Traffic.none,
    UInt64.zero_add, and_self]

/-- Counters that count the bytes that were passed agree with the numbers of these bytes. -/
theorem toNat_booked {received wasted n : Nat} (hsum : n = received + wasted) (hn : n < 2 ^ 64) :
    (UInt64.ofNat received).toNat + (UInt64.ofNat wasted).toNat = n := by
  rw [UInt64.toNat_ofNat', UInt64.toNat_ofNat', Nat.mod_eq_of_lt (by omega),
    Nat.mod_eq_of_lt (by omega)]
  omega

theorem Stage.headerBytes_mem (stage : Stage) : stage.headerBytes ∈ [0, 4, 16, 20, 24] := by
  cases stage <;> simp [Stage.headerBytes]

theorem Stands.accounted (hfresh : start.traffic = .none) (h : Stands f start stream r) :
    Accounted stream r := by
  obtain ⟨passed, rest, more, received, wasted, rfl, hpassed, -, rfl⟩ := h
  obtain ⟨hreceived, hwasted⟩ := traffic_booked hfresh received wasted
  generalize (start.waste wasted).receive received = peer at hreceived hwasted
  -- the bytes that were passed are booked, and the others are pending
  have hsum : (passed ++ (rest ++ more)).length = received + wasted
      + ((holding peer rest).feed more).stage.headerBytes
      + ((holding peer rest).feed more).buffer.length := by
    have hpending := pending_holding peer rest more
    unfold pending at hpending
    rw [List.length_append]
    omega
  refine ⟨?_, ?_, Stage.headerBytes_mem _, passed, rest, more, rfl, rfl, buffer_feed peer rest more⟩
  · rw [hsum, UInt64.ofNat_add, UInt64.ofNat_add, UInt64.ofNat_add, ← hreceived, ← hwasted]
    rfl
  · intro hsmall
    have hbooked := toNat_booked hpassed (by omega)
    rw [← hreceived, ← hwasted] at hbooked
    show _ = peer.traffic.received.toNat + peer.traffic.wasted.toNat + _ + _
    omega

/-- A receiver that nothing is pending at reads a stream as a new one does. -/
theorem drainAll_ofPeer_snd (f : Framing) {peer peer' : Peer} (hlayout : peer'.layout = peer.layout)
    (chunks : List Bytes) :
    ((ofPeer peer').drainAll f chunks).2 = ((ofPeer peer).drainAll f chunks).2 := by
  have hsays := drainAll_holding f chunks (unfinished_nil f peer.layout)
  have hsays' := drainAll_holding f chunks (unfinished_nil f peer'.layout)
  rw [hlayout] at hsays'
  exact Prod.ext (hsays'.messages.trans hsays.messages.symm) (hsays'.error.trans hsays.error.symm)

/-- **No byte is lost and none is counted twice.**  Whatever calls were made on a new receiver, as
long as none of them failed: each byte of the stream is booked, or held, or waits.  When a stream
has come to its end, all its bytes are booked, and the receiver differs from a new one in nothing
but its counters, so the next stream is read as by a new one. -/
theorem bytes_conserved (f : Framing) {peer : Peer} (hfresh : peer.traffic = .none) {stream : Bytes}
    {r : Receiver} (h : Follows f (ofPeer peer) stream r) :
    Accounted stream r
      ∧ ∀ r', r.finish f = (.ok none, r') →
        r'.stage = .magic ∧ r'.buffer = []
          ∧ UInt64.ofNat stream.length = r'.peer.traffic.received + r'.peer.traffic.wasted
          ∧ (stream.length < 2 ^ 64 → stream.length
              = r'.peer.traffic.received.toNat + r'.peer.traffic.wasted.toNat)
          ∧ r' = ofPeer { peer with traffic := r'.peer.traffic }
          ∧ ∀ chunks, (r'.drainAll f chunks).2 = ((ofPeer peer).drainAll f chunks).2 := by
  have hstands := h.stands
  refine ⟨hstands.accounted hfresh, ?_⟩
  intro r' hfinish
  have hend : Accounted stream r' := ((stands_finish hstands hfinish).1).accounted hfresh
  obtain ⟨received, wasted, -, rfl⟩ := (stands_finish hstands hfinish).2 rfl
  refine ⟨rfl, rfl, ?_, hend.numbers, rfl, ?_⟩
  · have hwords := hend.words
    simpa [ofPeer] using hwords
  · intro chunks
    have hlayout : ((peer.waste wasted).receive received).layout = peer.layout := rfl
    exact drainAll_ofPeer_snd f hlayout chunks

/-- A byte that belongs to nothing, a magic, and the beginning of a command. -/
def cutOff : Bytes := [0x00, 0xfa, 0xbf, 0xb5, 0xda, 0x76, 0x65]

/-- The receiver that was asked for a message once this has come in, and then at the end. -/
theorem cutOff_conserved :
    let framing := Framing.ofMagic Network.regtest.magic .doubleSha256
    let peer := Peer.fresh ⟨1, "remote"⟩ false
    let r : Receiver := ⟨.command, [0x76, 0x65], peer.waste 1⟩
    peer.traffic = .none ∧ Follows framing (ofPeer peer) cutOff r ∧ Accounted cutOff r
      ∧ r.finish framing = (.ok none, ofPeer (peer.waste 7))
      ∧ cutOff.length = (peer.waste 7).traffic.received.toNat
          + (peer.waste 7).traffic.wasted.toNat := by
  intro framing peer r
  have hnext : ((ofPeer peer).feed cutOff).next framing = (.ok none, r) := rfl
  have hfinish : r.finish framing = (.ok none, ofPeer (peer.waste 7)) := rfl
  have hfollows : Follows framing (ofPeer peer) cutOff r := .next (.feed cutOff .start) hnext
  obtain ⟨haccounted, hend⟩ := bytes_conserved framing rfl hfollows
  obtain ⟨-, -, -, hnumbers, -⟩ := hend _ hfinish
  exact ⟨rfl, hfollows, haccounted, hfinish, hnumbers (by decide)⟩

end Receiver

end HeaderPeer
