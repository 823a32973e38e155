/-
  HeaderPeer.Node.Stream — a node at the end of a stream.

  A stream is served or replayed in pieces, and the worker has its turn after each piece.  Serving
  writes answers; replaying takes the stream for a peer whose handshake is over and drops them.
-/
import HeaderPeer.Node.Basic

namespace HeaderPeer

/-- How a stream ends. -/
inductive Ending where
  | closed
  /-- It breaks down, with this report. -/
  | broken (report : String)
  /-- Nothing more comes, until the node itself is stopped. -/
  | silent
  deriving DecidableEq, Repr

/-- What comes in over a stream. -/
structure Inflow where
  /-- The bytes, in the pieces in which they come in. -/
  chunks : List Bytes
  ending : Ending

namespace Node

/-! ## §1. Serving -/

/-- What came of serving a stream. -/
structure Served where
  node : Node
  /-- What is known about the peer in the end. -/
  peer : Peer
  /-- All that was written to the peer. -/
  written : Wire.Output
  /-- The error that ended the connection, if one did. -/
  error : Option ConnectionError

/-- The node after a peer was served for a while. -/
def keep (n : Node) (s : Service) : Node := { n with worker := s.worker }

/-- What is left to happen to a stream after its last piece. -/
def serveEnding (n : Node) (now : Int64) (r : Receiver) (written : Wire.Output) : Ending → Served
  | .closed =>
    let (r, s, error) := (n.endpoint now).close r { worker := n.worker, written }
    ⟨n.keep s, r.peer, s.written, error⟩
  | .broken report => ⟨n, r.peer, written, some (.frame (.transport report))⟩
  | .silent => ⟨n, r.peer, written, none⟩

/-- Serves the pieces of a stream one by one, unless the node is stopped. -/
def serveChunks (now : Int64) (ending : Ending) :
    (chunks : List Bytes) → Node → Receiver → (written : Wire.Output) → Served
  | chunks, n, r, written =>
    if n.latch.shutdown then ⟨n, r.peer, written, none⟩
    else
      match chunks with
      | [] => n.serveEnding now r written ending
      | chunk :: rest =>
        match (n.endpoint now).feed r { worker := n.worker, written } chunk with
        | (r, s, some error) => ⟨n.keep s, r.peer, s.written, some error⟩
        | (r, s, none) => serveChunks now ending rest ((n.keep s).work now) r s.written

/-- Serves a peer until its stream ends, after greeting it with a message if there is one. -/
def servePeer (n : Node) (now : Int64) (peer : Peer) (greeting : Option Message)
    (inflow : Inflow) : Served :=
  let s : Service := { worker := n.worker, written := .empty }
  match (n.endpoint now).greet (.ofPeer peer) s greeting with
  | (r, s, some error) => ⟨n.keep s, r.peer, s.written, some error⟩
  | (r, s, none) => serveChunks now inflow.ending inflow.chunks (n.keep s) r s.written

/-- Serves one more peer.  A peer that was dialled is greeted with the node's announcement. -/
def serve (n : Node) (now : Int64) (remote : String) (outbound : Bool) (inflow : Inflow) :
    Served :=
  let (peer, n) := n.newPeer remote outbound
  let greeting := if outbound then some (.version (n.announcement now .unspecified)) else none
  n.servePeer now peer greeting inflow

/-! ## §2. Replaying -/

structure Replayed where
  messages : Nat
  /-- How many of the messages brought headers. -/
  headerBatches : Nat
  deriving DecidableEq, Repr

/-- What changes while a capture is replayed, besides the peer. -/
structure Replay where
  worker : Worker
  replayed : Replayed

def Replayed.add (c : Replayed) (m : Message) : Replayed where
  messages := c.messages + 1
  headerBatches := if m.kind? = some .headers then c.headerBatches + 1 else c.headerBatches

/-- Hands a message to the handlers and drops their answers. -/
def replayMessage (e : Endpoint) (m : Message) : EStateM ConnectionError (Peer × Replay) Unit :=
  fun (peer, c) =>
    match (e.router.dispatch e.now m).run { peer, worker := c.worker } with
    | .ok _ x => .ok () (x.peer, { worker := x.worker, replayed := c.replayed.add m })
    | .error cause x =>
      .error (.handler cause) (x.peer, { worker := x.worker, replayed := c.replayed.add m })

/-- Replays the pieces of a stream one by one.  A stream that falls silent counts as one that has
ended; what is told of it is how far a replay comes that would then wait for more. -/
def replayChunks (now : Int64) (ending : Ending) :
    (chunks : List Bytes) → Node → Receiver → Replayed → Node × Except ConnectionError Replayed
  | [], n, _, c =>
    match ending with
    | .broken report => (n, .error (.frame (.transport report)))
    | _ => (n, .ok c)
  | chunk :: rest, n, r, replayed =>
    let e := n.endpoint now
    let c : Replay := { worker := n.worker, replayed }
    match (r.feed chunk).run e.framing .frame (replayMessage e) c with
    | (_, c, some error) => ({ n with worker := c.worker }, .error error)
    | (r, c, none) =>
      replayChunks now ending rest ({ n with worker := c.worker }.work now) r c.replayed

/-- Hands all messages of a captured stream to the handlers, as those of a peer that speaks the
node's own version. -/
def replay (n : Node) (now : Int64) (source : String) (inflow : Inflow) :
    Node × Except ConnectionError Replayed :=
  let (peer, n) := n.newPeer source false
  let peer := (peer.negotiate n.settings.version).completeHandshake
  replayChunks now inflow.ending inflow.chunks n (.ofPeer peer) ⟨0, 0⟩

end Node

end HeaderPeer
