/-
  HeaderPeer.Proofs.Frame.Follow — what is done with the messages of a whole stream.

  A run does something with every message before it looks at the next one, and what it does may
  change the layout under which the next one is read.  To follow a stream is to do the same with a
  stream that is there from its first byte to its last: go to the next magic, read the frame that
  begins there under the layout now in force, act on its message, and go on behind the frame.

  Main statements:
    * `follow_append` — a longer stream is followed from where the shorter one has led to.
    * `Reaches.feed` — a run through a buffer does what following the whole stream does, wherever
      the stream was cut before.
    * `follow_ofMessage`, `unfinished_of_part` — a frame is acted on once all of it is there.
-/
import HeaderPeer.Proofs.Frame.Resync

namespace HeaderPeer

open HeaderPeer.Frame

variable {σ ε : Type}

/-! ## §1. Following a stream -/

/-- What came of following a stream. -/
structure Followed (σ ε : Type) where
  peer : Peer
  state : σ
  error : Option ε
  /-- The end of the stream, if it was followed that far: a frame in progress, or a part of the
  magic. -/
  rest : Bytes

namespace Frame

/-- Acts on the messages of a stream one by one, to the end of the stream or to the first error;
every message is read under the layout that the peer has by then. -/
def follow (f : Framing) (fault : FrameError → ε) (act : Message → EStateM ε (Peer × σ) Unit)
    (peer : Peer) (s : σ) (bs : Bytes) : Followed σ ε :=
  let skipped := f.magic.skip bs
  match h : front f peer.layout (bs.drop skipped) with
  | .unfinished => ⟨peer.waste skipped, s, none, bs.drop skipped⟩
  | .broken error wasted => ⟨peer.waste (skipped + wasted), s, some (fault error), []⟩
  | .whole m received wasted size =>
    have := (length_of_whole h).2
    match (act m).run ((peer.waste (skipped + wasted)).receive received, s) with
    | .ok () (peer, s) => follow f fault act peer s (bs.drop (skipped + size))
    | .error e (peer, s) => ⟨peer, s, some e, []⟩
termination_by bs.length

variable {f : Framing} {fault : FrameError → ε} {act : Message → EStateM ε (Peer × σ) Unit}
  {peer : Peer} {bs : Bytes}

theorem follow_of_unfinished (s : σ)
    (h : front f peer.layout (bs.drop (f.magic.skip bs)) = .unfinished) :
    follow f fault act peer s bs
      = ⟨peer.waste (f.magic.skip bs), s, none, bs.drop (f.magic.skip bs)⟩ := by
  rw [follow]
  split <;> simp_all

theorem follow_of_broken (s : σ) {error : FrameError} {wasted : Nat}
    (h : front f peer.layout (bs.drop (f.magic.skip bs)) = .broken error wasted) :
    follow f fault act peer s bs
      = ⟨peer.waste (f.magic.skip bs + wasted), s, some (fault error), []⟩ := by
  rw [follow]
  split <;> simp_all

theorem follow_of_whole (s : σ) {m : Message} {received wasted size : Nat}
    (h : front f peer.layout (bs.drop (f.magic.skip bs)) = .whole m received wasted size) :
    follow f fault act peer s bs =
      match (act m).run ((peer.waste (f.magic.skip bs + wasted)).receive received, s) with
      | .ok () (peer, s) => follow f fault act peer s (bs.drop (f.magic.skip bs + size))
      | .error e (peer, s) => ⟨peer, s, some e, []⟩ := by
  rw [follow]
  split <;> simp_all

/-! ## §2. Streams that go on -/

/-- Bytes that the search passes over are booked as wasted before anything else is done. -/
theorem follow_drop (peer : Peer) (s : σ) {n : Nat}
    (hskip : f.magic.skip bs = n + f.magic.skip (bs.drop n)) :
    follow f fault act peer s bs = follow f fault act (peer.waste n) s (bs.drop n) := by
  have hplace : (bs.drop n).drop (f.magic.skip (bs.drop n)) = bs.drop (f.magic.skip bs) := by
    rw [List.drop_drop, ← hskip]
  have hfront : front f (peer.waste n).layout ((bs.drop n).drop (f.magic.skip (bs.drop n)))
      = front f peer.layout (bs.drop (f.magic.skip bs)) := by
    rw [hplace, Peer.layout_waste]
  -- both look at the same frame, and both book the bytes before it
  match h : front f peer.layout (bs.drop (f.magic.skip bs)) with
  | .unfinished =>
    rw [follow_of_unfinished s h, follow_of_unfinished s (hfront.trans h), hplace, hskip,
      Peer.waste_add]
  | .broken error wasted =>
    rw [follow_of_broken s h, follow_of_broken s (hfront.trans h), hskip, Nat.add_assoc,
      Peer.waste_add]
  | .whole m received wasted size =>
    rw [follow_of_whole s h, follow_of_whole s (hfront.trans h), hskip, Nat.add_assoc,
      Peer.waste_add, List.drop_drop, Nat.add_assoc]

end Frame

/-- Goes on with more bytes from where a stream has led to; behind an error nothing is done. -/
def Followed.resume (f : Framing) (fault : FrameError → ε)
    (act : Message → EStateM ε (Peer × σ) Unit) (w : Followed σ ε) (more : Bytes) : Followed σ ε :=
  match w.error with
  | some _ => w
  | none => follow f fault act w.peer w.state (w.rest ++ more)

namespace Frame

variable {f : Framing} {fault : FrameError → ε} {act : Message → EStateM ε (Peer × σ) Unit}

/-- **A longer stream is followed from where the shorter one has led to.**  The induction is on the
frames of the shorter stream. -/
theorem follow_append (peer : Peer) (s : σ) (bs more : Bytes) :
    follow f fault act peer s (bs ++ more)
      = (follow f fault act peer s bs).resume f fault act more := by
  match h : front f peer.layout (bs.drop (f.magic.skip bs)) with
  | .unfinished =>
    -- nothing was done yet, and what was passed over stays passed over
    have hdrop : (bs ++ more).drop (f.magic.skip bs) = bs.drop (f.magic.skip bs) ++ more :=
      List.drop_append_of_le_length (Magic.skip_le f.magic bs)
    have hskip := Magic.skip_append f.magic bs more
    rw [← hdrop] at hskip
    rw [follow_drop peer s hskip, follow_of_unfinished s h, hdrop]
    rfl
  | .broken error wasted =>
    obtain ⟨hskip, hfront⟩ := front_skip_append more (by rw [h]; exact Front.noConfusion)
    rw [follow_of_broken s h, follow_of_broken s (hfront.trans h), hskip]
    rfl
  | .whole m received wasted size =>
    -- the first message is the same, so what is done with it is the same
    obtain ⟨hskip, hfront⟩ := front_skip_append more (by rw [h]; exact Front.noConfusion)
    obtain ⟨hin, hshorter⟩ := length_of_whole h
    rw [follow_of_whole s h, follow_of_whole s (hfront.trans h), hskip,
      List.drop_append_of_le_length hin]
    match (act m).run ((peer.waste (f.magic.skip bs + wasted)).receive received, s) with
    | .ok () (peer, s) => exact follow_append peer s (bs.drop (f.magic.skip bs + size)) more
    | .error e (peer, s) => rfl
termination_by bs.length

/-- A stream that was followed to its end left an unfinished rest. -/
theorem unfinished_follow (peer : Peer) (s : σ) (bs : Bytes)
    (hok : (follow f fault act peer s bs).error = none) :
    Unfinished f (follow f fault act peer s bs).peer.layout (follow f fault act peer s bs).rest := by
  match h : front f peer.layout (bs.drop (f.magic.skip bs)) with
  | .unfinished =>
    rw [follow_of_unfinished s h]
    exact ⟨Magic.meets_drop_skip f.magic bs, h⟩
  | .broken error wasted =>
    rw [follow_of_broken s h] at hok
    cases hok
  | .whole m received wasted size =>
    have hshorter := (length_of_whole h).2
    rw [follow_of_whole s h] at hok ⊢
    match hact : (act m).run ((peer.waste (f.magic.skip bs + wasted)).receive received, s) with
    | .ok () (peer, s) =>
      rw [hact] at hok
      exact unfinished_follow peer s (bs.drop (f.magic.skip bs + size)) hok
    | .error e (peer, s) =>
      rw [hact] at hok
      cases hok
termination_by bs.length

/-- Following an unfinished rest does nothing. -/
theorem follow_of_rest {peer : Peer} {rest : Bytes} (s : σ)
    (hrest : Unfinished f peer.layout rest) :
    follow f fault act peer s rest = ⟨peer, s, none, rest⟩ := by
  have hskip := Magic.skip_of_meets hrest.1
  have hfront : front f peer.layout (rest.drop (f.magic.skip rest)) = .unfinished := by
    rw [hskip]
    exact hrest.2
  rw [follow_of_unfinished s hfront, hskip, Peer.waste_zero]
  rfl

end Frame

/-! ## §3. Runs -/

namespace Receiver

/-- A run came to what following a stream comes to: the same peer, state and error and, without an
error, the receiver that holds the rest of the stream. -/
structure Reaches (outcome : Receiver × σ × Option ε) (w : Followed σ ε) : Prop where
  peer : outcome.1.peer = w.peer
  state : outcome.2.1 = w.state
  error : outcome.2.2 = w.error
  held : w.error = none → outcome.1 = holding w.peer w.rest

/-- **A run through a buffer does what following the stream does**, the stream being what the
receiver held and what came in.  The induction is on the frames of the stream. -/
theorem run_feed (f : Framing) (fault : FrameError → ε)
    (act : Message → EStateM ε (Peer × σ) Unit) {peer : Peer} {rest : Bytes}
    (hrest : Unfinished f peer.layout rest) (s : σ) (more : Bytes) :
    Reaches (((holding peer rest).feed more).run f fault act s)
      (follow f fault act peer s (rest ++ more)) := by
  have hnext := next_feed hrest more
  simp only at hnext
  match h : front f peer.layout ((rest ++ more).drop (f.magic.skip (rest ++ more))) with
  | .unfinished =>
    rw [h] at hnext
    rw [run_of_none s hnext, follow_of_unfinished s h]
    exact ⟨rfl, rfl, rfl, fun _ => rfl⟩
  | .broken error wasted =>
    rw [h] at hnext
    rw [run_of_error s hnext, follow_of_broken s h]
    exact ⟨rfl, rfl, rfl, fun hok => nomatch hok⟩
  | .whole m received wasted size =>
    have hshorter := (length_of_whole h).2
    rw [h] at hnext
    rw [run_of_some s hnext, follow_of_whole s h]
    -- behind the frame the receiver is a new one, with the peer that the action leaves
    show Reaches (match (act m).run ((peer.waste (f.magic.skip (rest ++ more) + wasted)).receive
      received, s) with | .ok () (peer, s) => _ | .error e (peer, s) => _) _
    match (act m).run
        ((peer.waste (f.magic.skip (rest ++ more) + wasted)).receive received, s) with
    | .ok () (peer, s) =>
      exact run_feed f fault act (unfinished_nil f peer.layout) s
        ((rest ++ more).drop (f.magic.skip (rest ++ more) + size))
    | .error e (peer, s) => exact ⟨rfl, rfl, rfl, fun hok => nomatch hok⟩
termination_by (rest ++ more).length
decreasing_by
  rw [List.nil_append, List.length_drop]
  exact hshorter

section

variable {f : Framing} {fault : FrameError → ε} {act : Message → EStateM ε (Peer × σ) Unit}
  {start : Peer} {before : σ} {stream : Bytes} {r : Receiver} {s : σ}

/-- Nothing has come in yet. -/
theorem reaches_ofPeer (f : Framing) (fault : FrameError → ε)
    (act : Message → EStateM ε (Peer × σ) Unit) (peer : Peer) (s : σ) :
    Reaches (ofPeer peer, s, none) (follow f fault act peer s []) := by
  rw [follow_of_rest s (unfinished_nil f peer.layout)]
  exact ⟨rfl, rfl, rfl, fun _ => rfl⟩

/-- **More of a stream is followed as a part of the whole**, whatever of it came in before. -/
theorem Reaches.feed (h : Reaches (r, s, none) (follow f fault act start before stream))
    (more : Bytes) :
    Reaches ((r.feed more).run f fault act s)
      (follow f fault act start before (stream ++ more)) := by
  let w := follow f fault act start before stream
  have hok : w.error = none := h.error.symm
  have hstate : s = w.state := h.state
  have hheld : r = holding w.peer w.rest := h.held hok
  have hresume : follow f fault act start before (stream ++ more)
      = follow f fault act w.peer w.state (w.rest ++ more) := by
    rw [follow_append]
    show w.resume f fault act more = _
    rw [Followed.resume, hok]
  rw [hresume, hheld, hstate]
  exact run_feed f fault act (unfinished_follow start before stream hok) w.state more

/-- Behind an error nothing more of a stream is followed. -/
theorem Reaches.follow_append {e : ε}
    (h : Reaches (r, s, some e) (follow f fault act start before stream)) (more : Bytes) :
    follow f fault act start before (stream ++ more) = follow f fault act start before stream := by
  rw [Frame.follow_append, Followed.resume, ← h.error]

end

end Receiver

/-! ## §4. The frame of a message -/

namespace Frame

section

variable {f : Framing} {version : Int32} {m : Message}

/-- The frame of a message begins with the magic. -/
theorem magic_prefix_ofPayload (f : Framing) (command : String) (payload : Bytes) :
    f.magic.toList <+: ofPayload f command payload := by
  unfold ofPayload
  simp only [List.append_assoc]
  exact List.prefix_append _ _

/-- **Nothing can be said of a frame before all of it is there.** -/
theorem unfinished_of_part (h : Sendable f version m) {frame part : Bytes}
    (hframe : ofPayload f m.command (m.payload { version }) = frame) (hpart : part <+: frame)
    (hlt : part.length < frame.length) : Unfinished f { version } part := by
  subst hframe
  have hmeets : Magic.Meets f.magic.toList part :=
    List.prefix_or_prefix_of_prefix (magic_prefix_ofPayload f _ _) hpart
  refine ⟨hmeets, ?_⟩
  obtain ⟨more, hmore⟩ := hpart
  -- what could be said of the part would be said of the whole, which is longer than the part
  by_contra hdone
  have hfront := front_ofMessage h []
  rw [List.append_nil, ← hmore, front_append f { version } more hdone] at hfront
  have hsize := (size_of_front_whole hfront).2
  have hlen : (ofPayload f m.command (m.payload { version })).length = size { version } m :=
    length_ofPayload f _ h.plain.fits
  omega

end

/-- **A piece at the front of a stream is acted on.**  Its noise is passed over, and the stream is
followed behind its frame unless that ends it. -/
theorem follow_piece {f : Framing} {fault : FrameError → ε}
    {act : Message → EStateM ε (Peer × σ) Unit} {peer : Peer} {p : Piece}
    (h : p.Readable f peer.version) (s : σ) (behind : Bytes) :
    follow f fault act peer s (p.bytes f peer.layout ++ behind) =
      match (act p.message).run ((peer.waste (p.noise.length + wasted peer.layout p.message)).receive
        (received peer.layout p.message), s) with
      | .ok () (peer, s) => follow f fault act peer s behind
      | .error e (peer, s) => ⟨peer, s, some e, []⟩ := by
  have hfound : f.magic.skip (p.bytes f peer.layout ++ behind) = p.noise.length := h.found behind
  have hpassed : (p.bytes f peer.layout ++ behind).drop
      (p.noise.length + size peer.layout p.message) = behind := h.passed behind
  have hfront : front f peer.layout ((p.bytes f peer.layout ++ behind).drop
      (f.magic.skip (p.bytes f peer.layout ++ behind)))
        = .whole p.message (received peer.layout p.message) (wasted peer.layout p.message)
          (size peer.layout p.message) := by
    rw [hfound]
    exact h.whole behind
  rw [follow_of_whole s hfront, hfound, hpassed]

/-- **A frame at the front of a stream is acted on**, and the stream is followed behind it. -/
theorem follow_ofMessage {f : Framing} {fault : FrameError → ε}
    {act : Message → EStateM ε (Peer × σ) Unit} {peer peer' : Peer} {s s' : σ} {m : Message}
    {kind : Kind} (hkind : m.kind? = some kind) (h : Sendable f peer.version m) {frame : Bytes}
    (hframe : ofPayload f m.command (m.payload { version := peer.version }) = frame)
    (hact : (act m).run (peer.receive frame.length, s) = .ok () (peer', s')) (more : Bytes) :
    follow f fault act peer s (frame ++ more) = follow f fault act peer' s' more := by
  subst hframe
  have hreceived : received peer.layout m = _ := h.received_eq hkind
  have hreadable : Piece.Readable f peer.version ⟨[], m⟩ := ⟨fun _ hk => (nomatch hk), h⟩
  have hpiece : follow f fault act peer s (Piece.bytes f peer.layout ⟨[], m⟩ ++ more) = _ :=
    follow_piece hreadable s more
  simp only [hreceived, wasted_of_kind _ hkind, List.length_nil, Nat.add_zero, Peer.waste_zero]
    at hpiece
  rw [hact] at hpiece
  exact hpiece

end Frame

end HeaderPeer
