/-
  HeaderPeer.Frame.Basic — frames: messages as they stand in a stream of bytes.

  A frame is the network's magic, a command padded with zero bytes, the length of the payload, a
  checksum of the payload, and the payload.
-/
import HeaderPeer.Frame.Magic
import HeaderPeer.Hex
import HeaderPeer.Message.Basic
import HeaderPeer.Peer
import HeaderPeer.Text.Utf8

namespace HeaderPeer

/-! ## §1. Errors -/

/-- Why a stream of frames cannot be followed or written. -/
inductive FrameError where
  | payloadTooLarge (size : Nat) (limit : UInt32)
  | checksumMismatch (command : String) (expected actual : Bytes)
  /-- A command that does not fit its field. -/
  | invalidCommand (command : String)
  /-- The payload of a known command does not decode. -/
  | payload (command : String) (cause : Wire.Error)
  /-- The stream itself broke down, with this report. -/
  | transport (report : String)
  deriving DecidableEq, Repr

def FrameError.message : FrameError → String
  | .payloadTooLarge size limit =>
    "Payload too large: " ++ toString size ++ " bytes (max: " ++ toString limit.toNat ++ ")"
  | .checksumMismatch command expected actual =>
    "Checksum mismatch for '" ++ command ++ "': expected " ++ Hex.encode expected ++ ", got "
      ++ Hex.encode actual
  | .invalidCommand command => "Invalid command name '" ++ command ++ "'"
  | .payload command cause => "Failed to decode '" ++ command ++ "': " ++ cause.message
  | .transport report => "IO error: " ++ report

/-! ## §2. Writing -/

/-- What the frames of one stream have in common. -/
structure Framing where
  magic : Magic
  /-- The largest payload that is read or written. -/
  maxPayload : UInt32
  hasher : Hasher

/-- The framing of a network whose payloads may have the usual size. -/
def Framing.ofMagic (magic : Magic) (hasher : Hasher) : Framing where
  magic
  maxPayload := Protocol.maxPayload
  hasher

namespace Frame

/-- The field of a command: its bytes and as many zero bytes as there is room for. -/
def commandField (command : String) : Bytes :=
  let bs := Bytes.ofText command
  bs ++ List.replicate (Protocol.commandSize - bs.length) 0

/-- The command in a field: its bytes up to the first zero byte. -/
def commandOfField (field : Bytes) : String := Utf8.text (field.takeWhile (· ≠ 0))

/-- Whether a command fits its field: it is short enough and all of it is ASCII. -/
def commandFits (command : String) : Bool :=
  let bs := Bytes.ofText command
  bs.length ≤ Protocol.commandSize && bs.all (· < 0x80)

/-- The bytes of a frame with the given command and payload. -/
def ofPayload (f : Framing) (command : String) (payload : Bytes) : Bytes :=
  f.magic.toList ++ commandField command ++ Bytes.ofNatLE 4 payload.length
    ++ f.hasher.checksum payload ++ payload

/-- The frame of a message under a layout. -/
def encode (f : Framing) (l : Wire.Layout) (m : Message) : Except FrameError Bytes :=
  if Frame.commandFits m.command then
    let payload := m.payload l
    if f.maxPayload.toNat < payload.length then
      .error (.payloadTooLarge payload.length f.maxPayload)
    else .ok (ofPayload f m.command payload)
  else .error (.invalidCommand m.command)

/-- The frame of a message as it is sent to a peer, and the peer with the frame booked. -/
def send (f : Framing) (peer : Peer) (m : Message) : Except FrameError (Bytes × Peer) :=
  match encode f peer.layout m with
  | .ok frame => .ok (frame, peer.send frame.length)
  | .error e => .error e

theorem length_ofPayload (f : Framing) {command : String} (payload : Bytes)
    (h : commandFits command = true) :
    (ofPayload f command payload).length = Protocol.frameHeaderSize + payload.length := by
  have hfit : (Bytes.ofText command).length ≤ Protocol.commandSize := by
    simp only [commandFits, Bool.and_eq_true, decide_eq_true_eq] at h
    exact h.1
  simp only [ofPayload, commandField, List.length_append, List.length_replicate,
    Bytes.length_ofNatLE, Hasher.length_checksum, Vector.length_toList, Protocol.frameHeaderSize,
    Protocol.commandSize] at hfit ⊢
  omega

end Frame

end HeaderPeer
