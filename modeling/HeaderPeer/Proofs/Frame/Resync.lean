/-
  HeaderPeer.Proofs.Frame.Resync — messages come back from a stream with noise in it.

  Between two frames of a stream anything may stand, as long as the magic of the next frame is the
  first that a reader comes to.  Whoever writes messages so, each behind some noise, has them read
  back one by one, however the stream is cut: a reader finds every frame again, and what it books
  as wasted is the noise and the frames of messages that it does not know.

  Main statements:
    * `Magic.skip_clear` — the search stops behind clear noise.
    * `Frame.front_ofMessage` — the frame of a message is whole and holds the message.
    * `Frame.parse_writeAll` — what the stream of some pieces says.
    * `Frame.pieces_come_back` — the messages of the pieces come back, in any chunks and in
      hexadecimal.
-/
import HeaderPeer.Command.Basic
import HeaderPeer.Proofs.Frame.Chunks
import HeaderPeer.Proofs.Message.RoundTrip
import HeaderPeer.Proofs.Message.Size
import HeaderPeer.Proofs.Text.Ascii

namespace HeaderPeer

/-! ## §1. Noise -/

namespace Magic

/-- Put before the magic, the bytes leave it where it first occurs: it does not begin among them,
not even with its end in the magic behind them. -/
def Clear (magic : Magic) (noise : Bytes) : Prop :=
  ∀ k < noise.length, ¬ magic.toList <+: (noise ++ magic.toList).drop k

instance (magic : Magic) (noise : Bytes) : Decidable (Clear magic noise) :=
  inferInstanceAs (Decidable (∀ k < noise.length, ¬ magic.toList <+: _))

theorem Clear.tail {magic : Magic} {b : UInt8} {noise : Bytes} (h : Clear magic (b :: noise)) :
    Clear magic noise := by
  intro k hk
  exact h (k + 1) (Nat.succ_lt_succ hk)

/-- **The search stops behind clear noise**, whatever follows the magic. -/
theorem skip_clear {magic : Magic} {noise : Bytes} (h : Clear magic noise) (more : Bytes) :
    skip magic (noise ++ (magic.toList ++ more)) = noise.length := by
  induction noise with
  | nil => exact skip_of_meets (.inl (List.prefix_append magic.toList more))
  | cons b noise ih =>
    have hmiss : ¬ Meets magic.toList (b :: (noise ++ (magic.toList ++ more))) := by
      intro hmeets
      -- there are enough bytes for all of the magic, and the first four are those of the noise
      -- and the magic behind it
      have hbegins : magic.toList <+: b :: (noise ++ (magic.toList ++ more)) := by
        apply hmeets.begins
        simp only [List.length_cons, List.length_append, Vector.length_toList]
        omega
      have hwhole : b :: noise ++ magic.toList <+: b :: (noise ++ (magic.toList ++ more)) := by
        refine ⟨more, ?_⟩
        simp
      have hlen : magic.toList.length ≤ (b :: noise ++ magic.toList).length := by
        simp
      exact h 0 (Nat.succ_pos _) (List.prefix_of_prefix_length_le hbegins hwhole hlen)
    rw [List.cons_append, skip_cons, if_neg hmiss, ih h.tail]
    rfl

end Magic

namespace Frame

/-! ## §2. Commands -/

/-- A command that its field holds without loss: short, of ASCII characters, and free of the zero
byte that pads the field. -/
structure Plain (command : String) : Prop where
  fits : commandFits command = true
  unpadded : ∀ b ∈ Bytes.ofText command, b ≠ 0

instance (command : String) : Decidable (Plain command) :=
  decidable_of_iff
    (commandFits command = true ∧ (Bytes.ofText command).all (fun b => decide (b ≠ 0)) = true)
    ⟨fun h => ⟨h.1, fun b hb => of_decide_eq_true (List.all_eq_true.1 h.2 b hb)⟩,
      fun h => ⟨h.fits, List.all_eq_true.2 fun b hb => decide_eq_true (h.unpadded b hb)⟩⟩

theorem Plain.length {command : String} (h : Plain command) :
    (Bytes.ofText command).length ≤ 12 := by
  have hfits := h.fits
  simp only [commandFits, Bool.and_eq_true, decide_eq_true_eq] at hfits
  exact hfits.1

theorem Plain.ascii {command : String} (h : Plain command) :
    ∀ b ∈ Bytes.ofText command, b < 0x80 := by
  have hfits := h.fits
  simp only [commandFits, Bool.and_eq_true, List.all_eq_true, decide_eq_true_eq] at hfits
  exact hfits.2

theorem length_commandField {command : String} (h : Plain command) :
    (commandField command).length = 12 := by
  have hlen := h.length
  simp only [commandField, Protocol.commandSize, List.length_append, List.length_replicate]
  omega

/-- **A plain command is read back from its field.** -/
theorem commandOfField_commandField {command : String} (h : Plain command) :
    commandOfField (commandField command) = command := by
  have hfront : (commandField command).takeWhile (· ≠ 0) = Bytes.ofText command := by
    unfold commandField
    rw [List.takeWhile_append_of_pos, List.takeWhile_replicate]
    · simp
    · intro b hb
      simpa using h.unpadded b hb
  rw [commandOfField, hfront]
  exact Utf8.text_ofText h.ascii

theorem plain_command (kind : Kind) : Plain kind.command := by
  cases kind <;> decide

theorem ofCommand?_command (kind : Kind) : Kind.ofCommand? kind.command = some kind := by
  cases kind <;> rfl

theorem ofCommand?_eq_none {command : String} (h : ∀ kind : Kind, kind.command ≠ command) :
    Kind.ofCommand? command = none := by
  unfold Kind.ofCommand?
  rw [List.find?_eq_none]
  intro kind _ hsame
  exact h kind (of_decide_eq_true hsame)

/-! ## §3. The frame of a payload -/

/-- A field is what stands between the bytes before it and those behind it. -/
theorem field_middle {start width : Nat} {before bs behind : Bytes} (hstart : before.length = start)
    (hwidth : bs.length = width) : field start width (before ++ bs ++ behind) = bs := by
  rw [field, List.append_assoc, List.drop_left' hstart, List.take_left' hwidth]

section

variable {f : Framing} {l : Wire.Layout} {command : String} {payload : Bytes}

theorem commandAt_ofPayload (h : Plain command) :
    commandAt (ofPayload f command payload) = command := by
  have hfield : field 4 12 (ofPayload f command payload) = commandField command := by
    unfold ofPayload
    simp only [List.append_assoc]
    rw [← List.append_assoc]
    exact field_middle (by simp) (length_commandField h)
  rw [commandAt, hfield]
  exact commandOfField_commandField h

theorem lengthAt_ofPayload (h : Plain command) (hfit : payload.length ≤ f.maxPayload.toNat) :
    lengthAt (ofPayload f command payload) = payload.length := by
  have hfield : field 16 4 (ofPayload f command payload) = Bytes.ofNatLE 4 payload.length := by
    unfold ofPayload
    rw [List.append_assoc]
    refine field_middle ?_ (Bytes.length_ofNatLE 4 _)
    rw [List.length_append, length_commandField h, Vector.length_toList]
  have hmax := f.maxPayload.toNat_lt
  rw [lengthAt, hfield, Bytes.toNatLE_ofNatLE]
  exact Nat.mod_eq_of_lt (by omega)

theorem checksumAt_ofPayload (h : Plain command) :
    checksumAt (ofPayload f command payload) = f.hasher.checksum payload := by
  unfold checksumAt ofPayload
  refine field_middle ?_ (Hasher.length_checksum _ _)
  rw [List.length_append, List.length_append, length_commandField h, Vector.length_toList,
    Bytes.length_ofNatLE]

theorem payloadAt_ofPayload (h : Plain command) (hfit : payload.length ≤ f.maxPayload.toNat) :
    payloadAt (ofPayload f command payload) = payload := by
  have hheader : (f.magic.toList ++ commandField command ++ Bytes.ofNatLE 4 payload.length
      ++ f.hasher.checksum payload).length = 24 := by
    rw [List.length_append, List.length_append, List.length_append, length_commandField h,
      Vector.length_toList, Bytes.length_ofNatLE, Hasher.length_checksum]
  have hfield : field 24 payload.length (ofPayload f command payload ++ []) = payload :=
    field_middle hheader rfl
  rw [List.append_nil] at hfield
  rw [payloadAt, lengthAt_ofPayload h hfit]
  exact hfield

/-- The frame of a payload that is not too large is whole, and only the payload is left to judge. -/
theorem front_ofPayload (h : Plain command) (hfit : payload.length ≤ f.maxPayload.toNat) :
    front f l (ofPayload f command payload) =
      match Kind.ofCommand? command with
      | none => .whole (.unknown command payload) 0 (24 + payload.length) (24 + payload.length)
      | some kind =>
        match Message.decode f.hasher l kind payload with
        | .ok m => .whole m (24 + payload.length) 0 (24 + payload.length)
        | .error cause => .broken (.payload command cause) (24 + payload.length) := by
  have hlen : (ofPayload f command payload).length = 24 + payload.length :=
    length_ofPayload f payload h.fits
  unfold front
  simp only [commandAt_ofPayload h, lengthAt_ofPayload h hfit, payloadAt_ofPayload h hfit,
    checksumAt_ofPayload h, hlen]
  rw [if_neg (by omega), if_neg (by omega), if_neg (by omega)]
  exact if_neg fun hne => hne rfl

end

/-! ## §4. The frame of a message -/

/-- The number of bytes of the frame of a message. -/
def size (l : Wire.Layout) (m : Message) : Nat :=
  Protocol.frameHeaderSize + (m.payload l).length

/-- The bytes of a frame that a reader books as received: those of messages that it knows. -/
def received (l : Wire.Layout) (m : Message) : Nat := if m.kind?.isSome then size l m else 0

/-- The bytes of a frame that a reader books as wasted: those of messages that it does not know. -/
def wasted (l : Wire.Layout) (m : Message) : Nat := if m.kind?.isSome then 0 else size l m

/-- A message that a frame can bring across: what the wire leaves out is what a reader supplies, an
unknown command is plain and names no kind, and the payload is not too large. -/
structure Sendable (f : Framing) (version : Int32) (m : Message) : Prop where
  representable : m.Representable f.hasher version
  unknown : ∀ command payload, m = .unknown command payload →
    Plain command ∧ ∀ kind : Kind, kind.command ≠ command
  payload : (m.payload { version }).length ≤ f.maxPayload.toNat

section

variable {f : Framing} {version : Int32} {m : Message}

theorem command_of_kind {kind : Kind} (h : m.kind? = some kind) : m.command = kind.command := by
  cases m <;> cases h <;> rfl

theorem eq_unknown_of_kind (h : m.kind? = none) :
    ∃ command payload, m = .unknown command payload := by
  cases m with
  | unknown command payload => exact ⟨command, payload, rfl⟩
  | _ => cases h

theorem payload_unknown (l : Wire.Layout) (command : String) (payload : Bytes) :
    (Message.unknown command payload).payload l = payload := by
  apply Message.payload_of_writes
  exact Wire.Put.writes_fixed rfl

/-- A command that names no kind of message is sent with any payload that fits. -/
theorem sendable_unknown {command : String} {payload : Bytes} (hplain : Plain command)
    (hunnamed : ∀ kind : Kind, kind.command ≠ command)
    (hpayload : payload.length ≤ f.maxPayload.toNat) :
    Sendable f version (.unknown command payload) where
  representable := trivial
  unknown := by
    intro command' payload' h
    cases h
    exact ⟨hplain, hunnamed⟩
  payload := by
    rw [payload_unknown]
    exact hpayload

theorem Sendable.plain (h : Sendable f version m) : Plain m.command := by
  cases hkind : m.kind? with
  | none =>
    obtain ⟨command, payload, rfl⟩ := eq_unknown_of_kind hkind
    exact (h.unknown command payload rfl).1
  | some kind =>
    rw [command_of_kind hkind]
    exact plain_command kind

/-- The frame of a message that a reader knows is booked as received, all of it. -/
theorem Sendable.received_eq (h : Sendable f version m) {kind : Kind} (hkind : m.kind? = some kind) :
    received { version } m = (ofPayload f m.command (m.payload { version })).length := by
  rw [received, hkind, length_ofPayload f _ h.plain.fits]
  rfl

theorem wasted_of_kind (l : Wire.Layout) {kind : Kind} (hkind : m.kind? = some kind) :
    wasted l m = 0 := by
  rw [wasted, hkind]
  rfl

theorem Sendable.encode (h : Sendable f version m) :
    encode f { version } m = .ok (ofPayload f m.command (m.payload { version })) := by
  unfold Frame.encode
  rw [if_pos h.plain.fits]
  simp only
  rw [if_neg (Nat.not_lt.2 h.payload)]

/-- A payload that is not too large is read back, since it can be counted. -/
theorem Sendable.decode (h : Sendable f version m) {kind : Kind} (hkind : m.kind? = some kind) :
    Message.decode f.hasher { version } kind (m.payload { version }) = .ok m := by
  have hcount : Countable (m.payload { version }) := by
    have hmax := f.maxPayload.toNat_lt
    have hfit := h.payload
    show (m.payload { version }).length < 2 ^ 64
    omega
  have hsized := Message.sized_of_payload h.representable hcount
  obtain ⟨bs, hput, hget⟩ := Message.carries hkind h.representable hsized
  have hrun := hget []
  rw [List.append_nil] at hrun
  rw [Message.payload_of_writes hput]
  exact Message.decode_of_run hrun

/-- **The frame of a message is whole and holds the message**, whatever follows it. -/
theorem front_ofMessage (h : Sendable f version m) (more : Bytes) :
    front f { version } (ofPayload f m.command (m.payload { version }) ++ more)
      = .whole m (received { version } m) (wasted { version } m) (size { version } m) := by
  have hfront : front f { version } (ofPayload f m.command (m.payload { version }))
      = .whole m (received { version } m) (wasted { version } m) (size { version } m) := by
    rw [front_ofPayload h.plain h.payload]
    unfold received wasted size
    cases hkind : m.kind? with
    | none =>
      obtain ⟨command, payload, rfl⟩ := eq_unknown_of_kind hkind
      have hunnamed : Kind.ofCommand? (Message.unknown command payload).command = none :=
        ofCommand?_eq_none (h.unknown command payload rfl).2
      rw [hunnamed, payload_unknown]
      rfl
    | some kind =>
      rw [command_of_kind hkind, ofCommand?_command]
      simp only [h.decode hkind]
      rfl
  have hdone : front f { version } (ofPayload f m.command (m.payload { version }))
      ≠ .unfinished := by
    rw [hfront]
    exact Front.noConfusion
  rw [front_append f { version } more hdone, hfront]

end

/-! ## §5. Streams of pieces -/

/-- Some noise, and the message that follows it. -/
structure Piece where
  noise : Bytes
  message : Message

namespace Piece

/-- A piece whose frame a reader finds, and whose message it reads. -/
structure Readable (f : Framing) (version : Int32) (p : Piece) : Prop where
  clear : f.magic.Clear p.noise
  sendable : Sendable f version p.message

/-- The bytes of a piece. -/
def bytes (f : Framing) (l : Wire.Layout) (p : Piece) : Bytes :=
  p.noise ++ ofPayload f p.message.command (p.message.payload l)

variable {f : Framing} {version : Int32} {p : Piece}

/-- The search stops at the frame of a piece, whatever is behind it. -/
theorem Readable.found (h : p.Readable f version) (behind : Bytes) :
    f.magic.skip (p.bytes f { version } ++ behind) = p.noise.length := by
  unfold bytes ofPayload
  simp only [List.append_assoc]
  exact Magic.skip_clear h.clear _

/-- The frame of a piece is whole and holds its message. -/
theorem Readable.whole (h : p.Readable f version) (behind : Bytes) :
    front f { version } ((p.bytes f { version } ++ behind).drop p.noise.length)
      = .whole p.message (received { version } p.message) (wasted { version } p.message)
        (size { version } p.message) := by
  rw [bytes, List.append_assoc, List.drop_left]
  exact front_ofMessage h.sendable behind

/-- Behind the frame the stream goes on. -/
theorem Readable.passed (h : p.Readable f version) (behind : Bytes) :
    (p.bytes f { version } ++ behind).drop (p.noise.length + size { version } p.message)
      = behind := by
  have hsize : (ofPayload f p.message.command (p.message.payload { version })).length
      = size { version } p.message := length_ofPayload f _ h.sendable.plain.fits
  apply List.drop_left'
  rw [bytes, List.length_append, hsize]

end Piece

/-- The stream of some pieces, each message in its frame. -/
def writeAll (f : Framing) (l : Wire.Layout) : List Piece → Except FrameError Bytes
  | [] => .ok []
  | p :: ps => do
    let frame ← encode f l p.message
    let behind ← writeAll f l ps
    return p.noise ++ frame ++ behind

/-- The bytes of a stream that belong to messages that are known. -/
def receivedAll (l : Wire.Layout) : List Piece → Nat
  | [] => 0
  | p :: ps => received l p.message + receivedAll l ps

/-- The bytes of a stream that are noise or belong to messages that are not known. -/
def wastedAll (l : Wire.Layout) : List Piece → Nat
  | [] => 0
  | p :: ps => p.noise.length + wasted l p.message + wastedAll l ps

section

variable {f : Framing} {version : Int32}

/-- One piece more in front of a stream: the search stops at its frame, the frame is whole, and
behind it the stream goes on. -/
theorem parse_cons {p : Piece} (h : p.Readable f version) (behind : Bytes) :
    parse f { version } (p.bytes f { version } ++ behind)
      = (Parse.mk [p.message] none (received { version } p.message)
          (p.noise.length + wasted { version } p.message) []).andThen
            (parse f { version } behind) := by
  have hfront := h.whole behind
  rw [← h.found behind] at hfront
  rw [parse_of_whole hfront, h.found, h.passed]

/-- **The stream of some pieces says their messages**, and nothing of it is left over. -/
theorem parse_writeAll {ps : List Piece} (h : ∀ p ∈ ps, p.Readable f version) :
    ∃ stream, writeAll f { version } ps = .ok stream
      ∧ parse f { version } stream = ⟨ps.map Piece.message, none, receivedAll { version } ps,
        wastedAll { version } ps, []⟩ := by
  induction ps with
  | nil => exact ⟨[], rfl, parse_of_rest (unfinished_nil f { version })⟩
  | cons p ps ih =>
    have hp := h p List.mem_cons_self
    obtain ⟨behind, hwrite, hparse⟩ := ih fun q hq => h q (List.mem_cons_of_mem p hq)
    refine ⟨p.bytes f { version } ++ behind, ?_, ?_⟩
    · rw [writeAll, hp.sendable.encode, hwrite]
      rfl
    · rw [parse_cons hp, hparse]
      rfl

/-- **The messages of the pieces come back.**  Whatever clear noise stands before the frames and
however the stream is cut, a receiver gives the messages in order and without an error, books the
noise and the frames of unknown messages as wasted and all other frames as received, and holds
nothing in the end.  On a network the hexadecimal form of the stream is read as the messages too,
if there are any. -/
theorem pieces_come_back (f : Framing) (peer : Peer) (ps : List Piece)
    (h : ∀ p ∈ ps, p.Readable f peer.version) :
    ∃ stream, writeAll f peer.layout ps = .ok stream
      ∧ (∀ chunks, chunks.flatten = stream →
        (Receiver.ofPeer peer).drainAll f chunks
          = (.ofPeer ((peer.waste (wastedAll peer.layout ps)).receive (receivedAll peer.layout ps)),
              ps.map Piece.message, none))
      ∧ ∀ network, ps ≠ [] → f = .ofMagic network.magic .doubleSha256 →
        Command.decodeFrames (Hex.encode stream) network peer.version
          = .ok (ps.map Piece.message) := by
  obtain ⟨stream, hwrite, hparse⟩ := parse_writeAll h
  refine ⟨stream, hwrite, ?_, ?_⟩
  · intro chunks hchunks
    have hsays := Receiver.drainAll_holding f chunks (unfinished_nil f peer.layout)
    rw [List.nil_append, hchunks] at hsays
    change Receiver.Says _ peer (parse f { version := peer.version } stream) at hsays
    rw [hparse] at hsays
    exact hsays.eq_of_ends
  · intro network hne hf
    -- the text is read in one chunk, for a peer of its own that has the same version
    let reader := (Peer.fresh { id := 0, remote := "hex" } false).negotiate peer.version
    have hsays := Receiver.drain_feed (unfinished_nil f reader.layout) stream
    rw [List.nil_append] at hsays
    change Receiver.Says _ reader (parse f { version := peer.version } stream) at hsays
    rw [hparse, Receiver.holding_nil] at hsays
    have houtcome := hsays.eq_of_ends
    rw [hf] at houtcome
    unfold Command.decodeFrames
    rw [Hex.trim_encode, Hex.ofText_encode, Hex.decode_digits]
    simp only [reader] at houtcome ⊢
    rw [houtcome]
    cases ps with
    | nil => exact absurd rfl hne
    | cons p ps => rfl

end

/-! ### A ping behind a magic that breaks off -/

/-- A peer that speaks a version in which pings carry a nonce. -/
def listener : Peer := (Peer.fresh { id := 7, remote := "127.0.0.1:8333" } true).negotiate 70015

/-- Three bytes of the magic, a ping, and a message that is not known. -/
def strayPieces : List Piece :=
  [⟨[0xf9, 0xbe, 0xb4], .ping 42⟩, ⟨[], .unknown "sendcmpct" [1, 2, 3]⟩]

/-- The part of the magic and the frame of the unknown message are wasted: 3 + 27 bytes. -/
theorem strayPieces_come_back :
    ∃ stream, writeAll (.ofMagic Network.mainnet.magic .doubleSha256) listener.layout strayPieces
        = .ok stream
      ∧ (∀ chunks, chunks.flatten = stream →
        (Receiver.ofPeer listener).drainAll (.ofMagic Network.mainnet.magic .doubleSha256) chunks
          = (.ofPeer ((listener.waste 30).receive 32),
              [.ping 42, .unknown "sendcmpct" [1, 2, 3]], none))
      ∧ Command.decodeFrames (Hex.encode stream) .mainnet 70015
          = .ok [.ping 42, .unknown "sendcmpct" [1, 2, 3]] := by
  have hping : Sendable (.ofMagic Network.mainnet.magic .doubleSha256) 70015 (.ping 42) :=
    ⟨fun hold => absurd hold (by decide), fun _ _ h => (nomatch h), by decide⟩
  have hunknown : Sendable (.ofMagic Network.mainnet.magic .doubleSha256) 70015
      (.unknown "sendcmpct" [1, 2, 3]) :=
    sendable_unknown (by decide) (fun kind => by cases kind <;> decide) (by decide)
  have hreadable : ∀ p ∈ strayPieces,
      p.Readable (.ofMagic Network.mainnet.magic .doubleSha256) listener.version := by
    intro p hp
    rcases List.mem_cons.1 hp with rfl | hp
    · exact ⟨by decide, hping⟩
    · rw [List.mem_singleton.1 hp]
      exact ⟨by decide, hunknown⟩
  obtain ⟨stream, hwrite, hdrain, hhex⟩ := pieces_come_back
    (.ofMagic Network.mainnet.magic .doubleSha256) listener strayPieces hreadable
  exact ⟨stream, hwrite, hdrain, hhex .mainnet (by decide) rfl⟩

end Frame

end HeaderPeer
