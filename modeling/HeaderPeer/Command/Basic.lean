/-
  HeaderPeer.Command.Basic — what can be asked of the program.

  A command writes lines and then either ends well or fails with a report; what it has written by
  then stays written.
-/
import HeaderPeer.Node.Stream
import HeaderPeer.Outline.Message
import HeaderPeer.Settings.File
import HeaderPeer.Text.Blank

namespace HeaderPeer

/-! ## §1. Commands -/

/-- What the program is asked to do. -/
inductive Command where
  | genesis
  /-- Show the messages of some frames, given in hexadecimal. -/
  | decode (hex : String)
  /-- Take a captured stream in and show what came of its headers. -/
  | replay (source : String) (capture : Bytes)
  | settings
  deriving DecidableEq, Repr

/-- What came of a command. -/
structure Command.Report where
  lines : List String
  /-- The report of a failure, if it failed. -/
  failure : Option String
  deriving DecidableEq, Repr

namespace Command

/-- All that was written, with every line ended. -/
def Report.text (r : Report) : String := String.join (r.lines.map (· ++ "\n"))

/-! ## §2. Showing the first header -/

def showGenesis (network : Network) : List String :=
  let genesis := (Params.ofNetwork network).genesis
  ["⛓️  Genesis header (" ++ network.name ++ ")",
   "   ├─ Hash: " ++ genesis.hash.text,
   "   ├─ Merkle root: " ++ genesis.merkleRoot.text,
   "   ├─ Time: " ++ toString genesis.time.toNat,
   "   ├─ Bits: " ++ hexWord genesis.bits,
   "   ├─ Nonce: " ++ toString genesis.nonce.toNat,
   "   └─ Magic: " ++ Hex.encode network.magic.toList]

/-! ## §3. Decoding frames -/

/-- Why a text gives no messages. -/
inductive DecodeError where
  | hex (cause : Hex.Error)
  | frame (cause : FrameError)
  /-- The text holds no whole frame. -/
  | noFrame
  deriving DecidableEq, Repr

def DecodeError.message : DecodeError → String
  | .hex cause => cause.message
  | .frame cause => cause.message
  | .noFrame => "input does not contain a complete frame"

/-- The messages of the frames that a text holds in hexadecimal, read under the given version. -/
def decodeFrames (text : String) (network : Network) (version : Int32) :
    Except DecodeError (List Message) :=
  match Hex.decode (Bytes.ofText (Blank.trim text)) with
  | .error cause => .error (.hex cause)
  | .ok bs =>
    let peer := (Peer.fresh { id := 0, remote := "hex" } false).negotiate version
    match ((Receiver.ofPeer peer).feed bs).drain (.ofMagic network.magic .doubleSha256) with
    | (_, _, some cause) => .error (.frame cause)
    | (_, [], none) => .error .noFrame
    | (_, m :: ms, none) => .ok (m :: ms)

def showFrame (index : Nat) (m : Message) : List String :=
  ["📦 Frame " ++ toString index ++ ": '" ++ m.command ++ "'", m.outline.text]

def showFrames (s : Settings) (text : String) : Report :=
  match decodeFrames text s.network s.version with
  | .ok ms => ⟨(ms.zipIdx.flatMap fun (m, index) => showFrame index m), none⟩
  | .error cause => ⟨[], some cause.message⟩

/-! ## §4. Replaying a capture -/

/-- Reads what waits for the first subscriber until as many batches are accounted for as there were;
reports that were lost count, but cannot be shown. -/
def readEvents : (fuel batches : Nat) → Bus → List String
  | 0, _, _ => []
  | fuel + 1, batches, bus =>
    if batches = 0 then []
    else
      match bus.read? 0 with
      | some (.event event, bus) => ("   " ++ event.text) :: readEvents fuel (batches - 1) bus
      | some (.lost count, bus) => readEvents fuel (batches - count) bus
      | _ => []

/-- The lines for the headers of a node. -/
def showTree (n : Node) : List String :=
  ["⛓️  Chain state (" ++ n.params.network.name ++ ")",
   "   ├─ Indexed headers: " ++ toString n.tree.size,
   "   ├─ Best height: " ++ toString n.tree.bestNode.height,
   "   └─ Best hash: " ++ n.tree.bestNode.hash.text]

def showReplay (s : Settings) (now : Int64) (nonce : UInt64) (source : String) (capture : Bytes) :
    Report :=
  let n := (Node.create s (.ofNetwork s.network) nonce).start
  let n := { n with bus := n.bus.subscribe }
  match n.replay now source { chunks := [capture], ending := .closed } with
  | (_, .error cause) => ⟨[], some cause.message⟩
  | (n, .ok replayed) =>
    let counts := "📂 Replayed " ++ toString replayed.messages ++ " messages ("
      ++ toString replayed.headerBatches ++ " header batches)"
    ⟨[counts] ++ readEvents (2 * replayed.headerBatches) replayed.headerBatches n.bus ++ showTree n,
      n.latch.failure⟩

/-! ## §5. Running a command -/

/-- Runs a command under the given settings; the clock and the node's nonce are given as well. -/
def run (s : Settings) (now : Int64) (nonce : UInt64) : Command → Report
  | genesis => ⟨showGenesis s.network, none⟩
  | decode hex => showFrames s hex
  | replay source capture => showReplay s now nonce source capture
  | settings => ⟨[s.text], none⟩

end Command

end HeaderPeer
