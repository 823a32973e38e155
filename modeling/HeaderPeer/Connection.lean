/-
  HeaderPeer.Connection — serving one peer over a stream of bytes.

  Messages are answered in the order in which they come.  A message is read under the version that
  the messages before it put in force, and its answers are written under the version in force after
  it.  The first error of any kind ends the connection.
-/
import HeaderPeer.Frame.Receiver
import HeaderPeer.Handler.Router

namespace HeaderPeer

/-! ## §1. Ends of a connection -/

/-- Why a connection ended abnormally. -/
inductive ConnectionError where
  | frame (cause : FrameError)
  | handler (cause : HandlerError)
  deriving DecidableEq, Repr

def ConnectionError.message : ConnectionError → String
  | .frame cause => "Protocol error: " ++ cause.message
  | .handler cause => "Processor error: " ++ cause.message

/-- This end of a connection: how frames look and who answers. -/
structure Endpoint where
  framing : Framing
  router : Router
  /-- The clock, in seconds since the start of 1970. -/
  now : Int64

/-- What changes while a peer is served, besides the peer itself. -/
structure Service where
  worker : Worker
  /-- All that was written to the peer. -/
  written : Wire.Output

/-- A step of serving a peer. -/
abbrev Serve := EStateM ConnectionError (Peer × Service) Unit

namespace Endpoint

/-! ## §2. Messages -/

/-- The frames of some messages, written to a peer that is booked as having been sent them. -/
def frames (e : Endpoint) (peer : Peer) : List Message → Except FrameError (Bytes × Peer)
  | [] => .ok ([], peer)
  | m :: rest =>
    match Frame.send e.framing peer m with
    | .error cause => .error cause
    | .ok (frame, peer) =>
      match e.frames peer rest with
      | .error cause => .error cause
      | .ok (bs, peer) => .ok (frame ++ bs, peer)

/-- Writes messages to the peer; none of them is written if one cannot be. -/
def write (e : Endpoint) (ms : List Message) : Serve := do
  let (peer, s) ← get
  match e.frames peer ms with
  | .error cause => throw (.frame cause)
  | .ok (bs, peer) => set (peer, { s with written := s.written.append bs })

def dispatch (e : Endpoint) (m : Message) :
    EStateM ConnectionError (Peer × Service) (List Message) :=
  fun (peer, s) =>
    match (e.router.dispatch e.now m).run { peer, worker := s.worker } with
    | .ok replies x => .ok replies (x.peer, { s with worker := x.worker })
    | .error cause x => .error (.handler cause) (x.peer, { s with worker := x.worker })

def answer (e : Endpoint) (m : Message) : Serve := do
  e.write (← e.dispatch m)

/-! ## §3. Streams -/

/-- Answers the messages that are complete after some more bytes have come in. -/
def feed (e : Endpoint) (r : Receiver) (s : Service) (chunk : Bytes) :
    Receiver × Service × Option ConnectionError :=
  (r.feed chunk).run e.framing .frame e.answer s

/-- Ends the stream: messages that are still there are answered, and a frame that was cut off is
dropped. -/
def close (e : Endpoint) (r : Receiver) (s : Service) :
    Receiver × Service × Option ConnectionError :=
  match e.feed r s [] with
  | (r, s, none) => ((r.finish e.framing).2, s, none)
  | stopped => stopped

/-- Sends the greeting, if there is one, before anything comes in. -/
def greet (e : Endpoint) (r : Receiver) (s : Service) (greeting : Option Message) :
    Receiver × Service × Option ConnectionError :=
  match (e.write greeting.toList).run (r.peer, s) with
  | .ok () (peer, s) => ({ r with peer }, s, none)
  | .error cause (peer, s) => ({ r with peer }, s, some cause)

end Endpoint

end HeaderPeer
