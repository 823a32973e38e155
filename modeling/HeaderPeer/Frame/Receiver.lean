/-
  HeaderPeer.Frame.Receiver — cutting a stream of bytes into messages as it comes in.

  A receiver holds the bytes that no message was made of yet.  Whatever is added to them, and in
  whatever pieces, the messages come out one by one.

  Main statement: every message makes what is pending smaller (`pending_of_next`), so a buffer holds
  finitely many messages and a run through it ends.
-/
import HeaderPeer.Frame.Attempt

namespace HeaderPeer

/-! ## §1. Receivers -/

/-- The receiving end of a stream of frames. -/
structure Receiver where
  /-- What was taken off the stream of the frame in progress. -/
  stage : Stage
  /-- Bytes that came in and were not taken off yet. -/
  buffer : Bytes
  peer : Peer

namespace Receiver

/-- A receiver that nothing has come in at. -/
def ofPeer (peer : Peer) : Receiver where
  stage := .magic
  buffer := []
  peer

/-- How many bytes came in that belong to no message yet. -/
def pending (r : Receiver) : Nat := r.buffer.length + r.stage.headerBytes

def feed (r : Receiver) (bs : Bytes) : Receiver := { r with buffer := r.buffer ++ bs }

/-- Makes an attempt on some input, which stands where the bytes used up by earlier attempts ended;
the buffer is left alone. -/
def attempt (f : Framing) (r : Receiver) (input : Bytes) :
    Except FrameError Progress × Receiver :=
  let a := Attempt.ofStage f r.peer input r.stage
  (a.result, { r with stage := a.stage, peer := a.peer })

/-- The next message of the buffer, if the buffer holds a whole one.  On an error the buffer stays
as it is. -/
def next (f : Framing) (r : Receiver) : Except FrameError (Option Message) × Receiver :=
  match r.attempt f r.buffer with
  | (.ok p, r) => (.ok p.message, { r with buffer := r.buffer.drop p.consumed })
  | (.error e, r) => (.error e, r)

/-- The next message when nothing more will come in.  If there is none, what is pending is dropped:
a frame cut off by the end of the stream is no error. -/
def finish (f : Framing) (r : Receiver) : Except FrameError (Option Message) × Receiver :=
  match r.next f with
  | (.ok none, r) => (.ok none, .ofPeer (r.peer.waste r.pending))
  | outcome => outcome

/-! ## §2. Runs -/

/-- A message takes away twenty-four bytes at least. -/
theorem pending_of_next {f : Framing} {r r' : Receiver} {m : Message}
    (h : r.next f = (.ok (some m), r')) : r'.pending + 24 ≤ r.pending := by
  have htakes := Attempt.takes_ofStage f r.peer r.buffer r.stage
  simp only [next, attempt] at h
  split at h
  · next p r'' heq =>
    simp only [Prod.mk.injEq] at heq
    obtain ⟨hp, rfl⟩ := heq
    simp only [Prod.mk.injEq, Except.ok.injEq] at h
    obtain ⟨hm, rfl⟩ := h
    obtain ⟨hstage, hleast, hmost⟩ := htakes p m hp hm
    have hheader := r.stage.headerBytes_le
    simp only [pending, hstage, Stage.headerBytes_magic, List.length_drop]
    omega
  · simp at h

/-- Takes the messages out one by one and does `act` with each, on the peer and on a state of its
own, up to the first error.  The peer that a message leaves is the one under which the next message
is read. -/
def run {σ ε : Type} (f : Framing) (fault : FrameError → ε)
    (act : Message → EStateM ε (Peer × σ) Unit) (r : Receiver) (s : σ) :
    Receiver × σ × Option ε :=
  match h : r.next f with
  | (.ok none, r') => (r', s, none)
  | (.error e, r') => (r', s, some (fault e))
  | (.ok (some m), r') =>
    -- a frame that was taken off is gone, whatever is done with its message
    have := pending_of_next h
    match (act m).run (r'.peer, s) with
    | .ok () (peer, s) => run f fault act { r' with peer } s
    | .error e (peer, s) => ({ r' with peer }, s, some e)
termination_by r.pending
decreasing_by
  simp only [pending] at this ⊢
  omega

section

variable {σ ε : Type} {f : Framing} {fault : FrameError → ε}
  {act : Message → EStateM ε (Peer × σ) Unit} {r r' : Receiver}

theorem run_of_none (s : σ) (h : r.next f = (.ok none, r')) :
    r.run f fault act s = (r', s, none) := by
  rw [run]
  split <;> simp_all

theorem run_of_error (s : σ) {e : FrameError} (h : r.next f = (.error e, r')) :
    r.run f fault act s = (r', s, some (fault e)) := by
  rw [run]
  split <;> simp_all

theorem run_of_some (s : σ) {m : Message} (h : r.next f = (.ok (some m), r')) :
    r.run f fault act s =
      match (act m).run (r'.peer, s) with
      | .ok () (peer, s) => run f fault act { r' with peer } s
      | .error e (peer, s) => ({ r' with peer }, s, some e) := by
  rw [run]
  split <;> simp_all

end

/-- Adds a message to those taken out so far, latest first. -/
def collect (m : Message) : EStateM FrameError (Peer × List Message) Unit :=
  modify fun (peer, messages) => (peer, m :: messages)

/-- Takes out all messages that are there, up to the first error, and gives them in order. -/
def drain (f : Framing) (r : Receiver) : Receiver × List Message × Option FrameError :=
  let (r, messages, error) := r.run f id collect []
  (r, messages.reverse, error)

/-- What was taken out before stays behind what is taken out now. -/
theorem run_collect (f : Framing) (r : Receiver) (before : List Message) :
    r.run f id collect before =
      ((r.run f id collect []).1, (r.run f id collect []).2.1 ++ before,
        (r.run f id collect []).2.2) := by
  match h : r.next f with
  | (.ok none, r') => rw [run_of_none before h, run_of_none [] h]; rfl
  | (.error e, r') => rw [run_of_error before h, run_of_error [] h]; rfl
  | (.ok (some m), r') =>
    have hpending := pending_of_next h
    have hstep : ∀ ms, r.run f id collect ms = r'.run f id collect (m :: ms) := fun ms =>
      run_of_some ms h
    rw [hstep before, hstep [], run_collect f r' (m :: before), run_collect f r' [m]]
    simp
termination_by r.pending
decreasing_by all_goals omega

section

variable {f : Framing} {r r' : Receiver}

theorem drain_of_none (h : r.next f = (.ok none, r')) : r.drain f = (r', [], none) := by
  rw [drain, run_of_none [] h]
  rfl

theorem drain_of_error {e : FrameError} (h : r.next f = (.error e, r')) :
    r.drain f = (r', [], some e) := by
  rw [drain, run_of_error [] h]
  rfl

theorem drain_of_some {m : Message} (h : r.next f = (.ok (some m), r')) :
    r.drain f = ((r'.drain f).1, m :: (r'.drain f).2.1, (r'.drain f).2.2) := by
  have hrun : r.run f id collect [] = r'.run f id collect [m] := run_of_some [] h
  rw [drain, hrun, run_collect, drain]
  simp

end

end Receiver

end HeaderPeer
