/-
  HeaderPeer.Frame.Attempt — one attempt to find a message in the bytes at hand.

  The fields of a frame are taken off the input one by one, as soon as they are complete, and
  remembered in the stage; the payload is only taken when all of it is there.  Bytes before the
  magic are dropped.  Bytes are booked with the peer: as received when they belong to a frame that
  was understood, as wasted otherwise.

  Main statement: with the fields taken before it, a message uses up at least the twenty-four bytes
  of a frame without payload, and no more bytes than there are (`takes_ofStage`).
-/
import HeaderPeer.Frame.Basic
import HeaderPeer.Peer

namespace HeaderPeer

/-! ## §1. Stages -/

/-- How much of a frame has been taken off the stream, and what it said. -/
inductive Stage where
  | magic
  | command
  | length (command : String)
  | checksum (command : String) (length : Nat)
  | payload (command : String) (length : Nat) (checksum : Bytes)
  deriving DecidableEq, Repr

/-- The bytes of the frame that were taken off the stream. -/
def Stage.headerBytes : Stage → Nat
  | magic => 0
  | command => 4
  | length _ => 16
  | checksum _ _ => 20
  | payload _ _ _ => 24

@[simp] theorem Stage.headerBytes_magic : headerBytes .magic = 0 := rfl

theorem Stage.headerBytes_le (stage : Stage) : stage.headerBytes ≤ 24 := by
  cases stage <;> simp [headerBytes]

/-! ## §2. One attempt -/

/-- What an attempt to find a message did with the input. -/
structure Progress where
  /-- Bytes that are not needed any more. -/
  consumed : Nat
  /-- Bytes that were looked at; without more than these, nothing will come of another attempt. -/
  examined : Nat
  message : Option Message
  deriving DecidableEq, Repr

/-- The outcome of an attempt. -/
structure Attempt where
  result : Except FrameError Progress
  stage : Stage
  peer : Peer

namespace Attempt

/-- More input is needed: `taken` bytes are used up and `left` bytes wait. -/
def wait (stage : Stage) (peer : Peer) (taken left : Nat) : Attempt where
  result := .ok { consumed := taken, examined := taken + left, message := none }
  stage
  peer

/-- The frame in progress is given up. -/
def fail (error : FrameError) (peer : Peer) : Attempt where
  result := .error error
  stage := .magic
  peer

/-- The message of a whole frame whose checksum is right, `taken` bytes into the input. -/
def decode (f : Framing) (peer : Peer) (command : String) (payload : Bytes) (taken : Nat) :
    Attempt :=
  let size := Protocol.frameHeaderSize + payload.length
  match Kind.ofCommand? command with
  | none =>
    -- a frame that means nothing here is a message all the same, but its bytes count as wasted
    { result := .ok ⟨taken, taken, some (.unknown command payload)⟩
      stage := .magic
      peer := peer.waste size }
  | some kind =>
    match Message.decode f.hasher peer.layout kind payload with
    | .ok m => { result := .ok ⟨taken, taken, some m⟩, stage := .magic, peer := peer.receive size }
    | .error cause => fail (.payload command cause) (peer.waste size)

/-- Goes on with the payload; `input` is what follows the `taken` bytes used up so far. -/
def payload (f : Framing) (peer : Peer) (command : String) (length : Nat) (checksum : Bytes)
    (taken : Nat) (input : Bytes) : Attempt :=
  if input.isShorter length then wait (.payload command length checksum) peer taken input.length
  else
    let payload := input.take length
    let actual := f.hasher.checksum payload
    if actual ≠ checksum then fail (.checksumMismatch command checksum actual) peer
    else decode f peer command payload (taken + length)

def checksum (f : Framing) (peer : Peer) (command : String) (length taken : Nat) (input : Bytes) :
    Attempt :=
  if input.isShorter 4 then wait (.checksum command length) peer taken input.length
  else payload f peer command length (input.take 4) (taken + 4) (input.drop 4)

def length (f : Framing) (peer : Peer) (command : String) (taken : Nat) (input : Bytes) :
    Attempt :=
  if input.isShorter 4 then wait (.length command) peer taken input.length
  else
    let length := Bytes.toNatLE (input.take 4)
    -- nothing of a payload that is too large is waited for
    if f.maxPayload.toNat < length then fail (.payloadTooLarge length f.maxPayload) peer
    else checksum f peer command length (taken + 4) (input.drop 4)

def command (f : Framing) (peer : Peer) (taken : Nat) (input : Bytes) : Attempt :=
  if input.isShorter Protocol.commandSize then wait .command peer taken input.length
  else
    length f peer (Frame.commandOfField (input.take Protocol.commandSize))
      (taken + Protocol.commandSize) (input.drop Protocol.commandSize)

/-- Looks for the magic and goes on from there. -/
def magic (f : Framing) (peer : Peer) (input : Bytes) : Attempt :=
  match f.magic.search input with
  | .found skipped => command f (peer.waste skipped) (skipped + 4) (input.drop (skipped + 4))
  | .cut skipped => wait .magic (peer.waste skipped) skipped (input.length - skipped)
  | .missing => wait .magic (peer.waste input.length) input.length 0

def ofStage (f : Framing) (peer : Peer) (input : Bytes) : Stage → Attempt
  | .magic => magic f peer input
  | .command => command f peer 0 input
  | .length name => length f peer name 0 input
  | .checksum name size => checksum f peer name size 0 input
  | .payload name size sum => payload f peer name size sum 0 input

end Attempt

/-! ## §3. What a message takes away -/

namespace Attempt

/-- If the attempt found a message, it used up at least `least` and at most `most` bytes, and the
next frame begins behind them. -/
def Takes (a : Attempt) (least most : Nat) : Prop :=
  ∀ p m, a.result = .ok p → p.message = some m →
    a.stage = .magic ∧ least ≤ p.consumed ∧ p.consumed ≤ most

theorem takes_wait (stage : Stage) (peer : Peer) (taken left least most : Nat) :
    (wait stage peer taken left).Takes least most := by
  intro p m h hm
  cases h
  cases hm

theorem takes_fail (error : FrameError) (peer : Peer) (least most : Nat) :
    (fail error peer).Takes least most := by
  intro p m h
  cases h

theorem takes_decode (f : Framing) (peer : Peer) (name : String) (bs : Bytes) (taken : Nat) :
    (decode f peer name bs taken).Takes taken taken := by
  unfold decode
  simp only
  split
  · intro p m h hm
    cases h
    exact ⟨rfl, Nat.le_refl _, Nat.le_refl _⟩
  · split
    · intro p m h hm
      cases h
      exact ⟨rfl, Nat.le_refl _, Nat.le_refl _⟩
    · exact takes_fail _ _ _ _

theorem Takes.mono {a : Attempt} {least most least' most' : Nat} (h : a.Takes least most)
    (hleast : least' ≤ least) (hmost : most ≤ most') : a.Takes least' most' := by
  intro p m hp hm
  obtain ⟨hstage, h1, h2⟩ := h p m hp hm
  exact ⟨hstage, by omega, by omega⟩

theorem takes_payload (f : Framing) (peer : Peer) (name : String) (size : Nat) (sum : Bytes)
    (taken : Nat) (input : Bytes) :
    (payload f peer name size sum taken input).Takes taken (taken + input.length) := by
  unfold payload
  split
  · exact takes_wait _ _ _ _ _ _
  · next h =>
    rw [Bytes.isShorter_iff] at h
    simp only
    split
    · exact takes_fail _ _ _ _
    · exact (takes_decode _ _ _ _ _).mono (by omega) (by omega)

theorem takes_checksum (f : Framing) (peer : Peer) (name : String) (size taken : Nat)
    (input : Bytes) :
    (checksum f peer name size taken input).Takes (taken + 4) (taken + input.length) := by
  unfold checksum
  split
  · exact takes_wait _ _ _ _ _ _
  · next h =>
    rw [Bytes.isShorter_iff] at h
    refine (takes_payload _ _ _ _ _ _ _).mono (by omega) ?_
    rw [List.length_drop]
    omega

theorem takes_length (f : Framing) (peer : Peer) (name : String) (taken : Nat) (input : Bytes) :
    (length f peer name taken input).Takes (taken + 8) (taken + input.length) := by
  unfold length
  split
  · exact takes_wait _ _ _ _ _ _
  · next h =>
    rw [Bytes.isShorter_iff] at h
    simp only
    split
    · exact takes_fail _ _ _ _
    · refine (takes_checksum _ _ _ _ _ _).mono (by omega) ?_
      rw [List.length_drop]
      omega

theorem takes_command (f : Framing) (peer : Peer) (taken : Nat) (input : Bytes) :
    (command f peer taken input).Takes (taken + 20) (taken + input.length) := by
  unfold command
  split
  · exact takes_wait _ _ _ _ _ _
  · next h =>
    rw [Bytes.isShorter_iff] at h
    simp only [Protocol.commandSize] at h ⊢
    refine (takes_length _ _ _ _ _).mono (by omega) ?_
    rw [List.length_drop]
    omega

theorem takes_magic (f : Framing) (peer : Peer) (input : Bytes) :
    (magic f peer input).Takes 24 input.length := by
  unfold magic
  split
  · next h =>
    have hle := Magic.le_of_search_found h
    refine (takes_command _ _ _ _).mono (by omega) ?_
    rw [List.length_drop]
    omega
  · exact takes_wait _ _ _ _ _ _
  · exact takes_wait _ _ _ _ _ _

theorem takes_ofStage (f : Framing) (peer : Peer) (input : Bytes) (stage : Stage) :
    (ofStage f peer input stage).Takes (24 - stage.headerBytes) input.length := by
  cases stage with
  | magic => exact takes_magic f peer input
  | command => simpa [ofStage, Stage.headerBytes] using takes_command f peer 0 input
  | length name => simpa [ofStage, Stage.headerBytes] using takes_length f peer name 0 input
  | checksum name size =>
    simpa [ofStage, Stage.headerBytes] using takes_checksum f peer name size 0 input
  | payload name size sum =>
    simpa [ofStage, Stage.headerBytes] using takes_payload f peer name size sum 0 input

end Attempt

end HeaderPeer
