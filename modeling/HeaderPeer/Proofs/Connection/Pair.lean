/-
  HeaderPeer.Proofs.Connection.Pair — two ends that talk to each other.

  Two ends are joined by two links.  What one end writes comes in at the other in the order in which
  it was written and without loss, but in whatever pieces and as late as the link likes.  So a link
  is what was written at one end and has not come in at the other, and a run of the pair is a list
  of deliveries: how many bytes come out of which link next.

  Main statement: `Pair.Consistent.deliver` — after any deliveries each end has done what following
  all it has heard comes to, and what it has heard is what the other end wrote first.
-/
import HeaderPeer.Proofs.Connection.Answer
import HeaderPeer.Proofs.Frame.Follow

namespace HeaderPeer

open HeaderPeer.Frame

/-! ## §1. Ends -/

/-- One end of a connection while it is used. -/
structure Side where
  receiver : Receiver
  /-- The worker, and all that was written. -/
  service : Service
  /-- The error that ended the connection, if one did. -/
  error : Option ConnectionError
  /-- How many bytes have come in. -/
  heard : Nat

namespace Side

/-- What this end knows about the other one. -/
def peer (x : Side) : Peer := x.receiver.peer

/-- All that this end has written. -/
def said (x : Side) : Bytes := x.service.written.toBytes

/-- Takes in some more bytes; an end that has failed takes in nothing. -/
def hear (e : Endpoint) (x : Side) (bs : Bytes) : Side :=
  match x.error with
  | some _ => x
  | none =>
    let (receiver, service, error) := e.feed x.receiver x.service bs
    { receiver, service, error, heard := x.heard + bs.length }

/-- This end has done what following `stream` comes to for an end that began with the peer `start`
and the service `before`. -/
structure Follows (e : Endpoint) (start : Peer) (before : Service) (x : Side) (stream : Bytes) :
    Prop where
  reaches : Receiver.Reaches (x.receiver, x.service, x.error)
    (follow e.framing .frame e.answer start before stream)
  heard : x.heard = stream.length

end Side

/-- Following a stream only adds to what was written. -/
theorem said_follow (e : Endpoint) (peer : Peer) (s : Service) (bs : Bytes) :
    s.written.toBytes <+: (follow e.framing .frame e.answer peer s bs).state.written.toBytes := by
  match h : front e.framing peer.layout (bs.drop (e.framing.magic.skip bs)) with
  | .unfinished =>
    rw [follow_of_unfinished s h]
  | .broken error wasted =>
    rw [follow_of_broken s h]
  | .whole m received wasted size =>
    have hshorter := (length_of_whole h).2
    rw [follow_of_whole s h, Endpoint.run_answer]
    cases (e.router.dispatch e.now m).run
        ⟨(peer.waste (e.framing.magic.skip bs + wasted)).receive received, s.worker⟩ with
    | error cause x => exact List.prefix_rfl
    | ok replies x =>
      cases hreplies : e.encodeAll x.peer.layout replies with
      | error cause =>
        simp only [hreplies]
        exact List.prefix_rfl
      | ok answer =>
        simp only [hreplies]
        refine List.IsPrefix.trans ?_ (said_follow e (x.peer.send answer.length)
          { worker := x.worker, written := s.written.append answer }
          (bs.drop (e.framing.magic.skip bs + size)))
        rw [Wire.Output.toBytes_append]
        exact List.prefix_append _ _
termination_by bs.length

namespace Side

variable {e : Endpoint} {start : Peer} {before : Service} {x y y' : Side} {stream : Bytes}

/-- **An end that takes in more does what following the longer stream comes to.** -/
theorem Follows.more (h : x.Follows e start before stream) (hok : x.error = none) (bs : Bytes) :
    (x.hear e bs).Follows e start before (stream ++ bs) := by
  have hreaches := h.reaches
  rw [hok] at hreaches
  have hmore : Receiver.Reaches (e.feed x.receiver x.service bs) _ := hreaches.feed bs
  rw [hear, hok]
  refine ⟨hmore, ?_⟩
  rw [List.length_append, ← h.heard]

theorem hear_of_error {error : ConnectionError} (h : x.error = some error) (bs : Bytes) :
    x.hear e bs = x := by
  rw [hear, h]

theorem heard_hear (hok : x.error = none) (bs : Bytes) :
    (x.hear e bs).heard = x.heard + bs.length := by
  rw [hear, hok]

theorem Follows.said_eq (h : x.Follows e start before stream) :
    x.said = (follow e.framing .frame e.answer start before stream).state.written.toBytes :=
  congrArg (fun s : Service => s.written.toBytes) h.reaches.state

/-- What was said stays said. -/
theorem Follows.said_hear (h : x.Follows e start before stream) (bs : Bytes) :
    x.said <+: (x.hear e bs).said := by
  cases hok : x.error with
  | some error => rw [hear_of_error hok]
  | none =>
    rw [h.said_eq, (h.more hok bs).said_eq, follow_append, Followed.resume, ← h.reaches.error, hok]
    exact said_follow e _ _ _

/-- This end has followed what it heard, and that is what the other end `y` said first. -/
def Hears (e : Endpoint) (start : Peer) (before : Service) (x y : Side) : Prop :=
  x.Follows e start before (y.said.take x.heard)

theorem Hears.heard_le (h : x.Hears e start before y) : x.heard ≤ y.said.length := by
  have hheard := h.heard
  rw [List.length_take] at hheard
  omega

/-- A link that delivers takes nothing out of turn. -/
theorem Hears.deliver (h : x.Hears e start before y) (bytes : Nat) :
    (x.hear e ((y.said.drop x.heard).take bytes)).Hears e start before y := by
  cases hok : x.error with
  | some error =>
    rw [hear_of_error hok]
    exact h
  | none =>
    let bs := (y.said.drop x.heard).take bytes
    have hmore : (x.hear e bs).Follows e start before (y.said.take x.heard ++ bs) := h.more hok bs
    have htaken : y.said.take (x.heard + bs.length) = y.said.take x.heard ++ bs := by
      have hlength : bs.length = min bytes (y.said.drop x.heard).length := List.length_take
      rw [List.take_add, hlength, ← List.take_eq_take_min]
    show (x.hear e bs).Follows e start before (y.said.take (x.hear e bs).heard)
    rw [heard_hear hok, htaken]
    exact hmore

/-- It does not matter that the other end goes on talking. -/
theorem Hears.mono (h : x.Hears e start before y) (hsaid : y.said <+: y'.said) :
    x.Hears e start before y' := by
  obtain ⟨more, hmore⟩ := hsaid
  show x.Follows e start before (y'.said.take x.heard)
  rw [← hmore, List.take_append_of_le_length h.heard_le]
  exact h

end Side

/-! ## §2. Pairs -/

/-- The end that opened a connection and the one that it was opened to. -/
structure Pair where
  dialer : Side
  listener : Side

/-- The next thing that a link does: it delivers so many bytes, or all of them if it holds fewer. -/
inductive Delivery where
  | toListener (bytes : Nat)
  | toDialer (bytes : Nat)
  deriving DecidableEq, Repr

namespace Pair

/-- The bytes on their way to the listener. -/
def toListener (x : Pair) : Bytes := x.dialer.said.drop x.listener.heard

/-- The bytes on their way to the dialer. -/
def toDialer (x : Pair) : Bytes := x.listener.said.drop x.dialer.heard

/-- Lets a link deliver to the end that it leads to; `d` answers for the dialer and `l` for the
listener. -/
def deliver (d l : Endpoint) (x : Pair) : Delivery → Pair
  | .toListener bytes => { x with listener := x.listener.hear l (x.toListener.take bytes) }
  | .toDialer bytes => { x with dialer := x.dialer.hear d (x.toDialer.take bytes) }

/-- Makes deliveries one after the other. -/
def run (d l : Endpoint) (x : Pair) (ds : List Delivery) : Pair := ds.foldl (deliver d l) x

/-- Each end has followed what it heard, and that is what the other end said first.  The dialer
began with `dialed` and `before`, the listener with `accepted` and `before'`. -/
structure Consistent (d l : Endpoint) (dialed accepted : Peer) (before before' : Service)
    (x : Pair) : Prop where
  dialer : x.dialer.Hears d dialed before x.listener
  listener : x.listener.Hears l accepted before' x.dialer

variable {d l : Endpoint} {dialed accepted : Peer} {before before' : Service} {x : Pair}

theorem Consistent.deliver (h : x.Consistent d l dialed accepted before before')
    (delivery : Delivery) :
    (x.deliver d l delivery).Consistent d l dialed accepted before before' := by
  cases delivery with
  | toListener bytes =>
    exact ⟨h.dialer.mono (h.listener.said_hear _), h.listener.deliver bytes⟩
  | toDialer bytes =>
    exact ⟨h.dialer.deliver bytes, h.listener.mono (h.dialer.said_hear _)⟩

/-- With nothing on its way the listener has heard all that the dialer has said. -/
theorem take_of_toListener (h : x.toListener = []) :
    x.dialer.said.take x.listener.heard = x.dialer.said :=
  List.take_of_length_le (List.drop_eq_nil_iff.1 h)

theorem take_of_toDialer (h : x.toDialer = []) :
    x.listener.said.take x.dialer.heard = x.listener.said :=
  List.take_of_length_le (List.drop_eq_nil_iff.1 h)

/-- A link that delivers all that it holds is empty afterwards. -/
theorem toListener_deliver (hok : x.listener.error = none) :
    (x.deliver d l (.toListener x.toListener.length)).toListener = [] := by
  show x.dialer.said.drop (x.listener.hear l (x.toListener.take x.toListener.length)).heard = []
  rw [List.drop_eq_nil_iff, Side.heard_hear hok, List.take_length, toListener, List.length_drop]
  omega

theorem toDialer_deliver (hok : x.dialer.error = none) :
    (x.deliver d l (.toDialer x.toDialer.length)).toDialer = [] := by
  show x.listener.said.drop (x.dialer.hear d (x.toDialer.take x.toDialer.length)).heard = []
  rw [List.drop_eq_nil_iff, Side.heard_hear hok, List.take_length, toDialer, List.length_drop]
  omega

end Pair

end HeaderPeer
