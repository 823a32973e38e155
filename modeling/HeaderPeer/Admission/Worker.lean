/-
  HeaderPeer.Admission.Worker — the one worker that takes in the batches of all peers.

  Peers put batches into the worker's queue and do not wait.  The worker takes them in one after the
  other, oldest first, so the tree only changes between batches.  It stops when it is cancelled,
  when the queue is empty and nobody is left to fill it, or when a batch fails.
-/
import HeaderPeer.Admission.Basic
import HeaderPeer.Queue

namespace HeaderPeer

/-! ## §1. The worker -/

/-- A worker between two batches. -/
structure Worker where
  tree : HeaderTree
  /-- Batches that wait, in the order in which they came. -/
  waiting : Queue Admission.Batch
  /-- Whether anybody can still bring batches. -/
  attended : Bool
  /-- Whether the worker was told to stop. -/
  cancelled : Bool
  stopped : Bool

namespace Worker

def start (tree : HeaderTree) : Worker where
  tree
  waiting := .empty
  attended := true
  cancelled := false
  stopped := false

/-- A batch was brought to a worker that has stopped. -/
structure Closed where
  deriving DecidableEq, Repr

def Closed.message (_ : Closed) : String := "Header validator is not running"

def submit (w : Worker) (b : Admission.Batch) : Except Closed Worker :=
  if w.stopped then .error {} else .ok { w with waiting := w.waiting.push b }

/-- Tells the worker to stop; it will do so before the next batch. -/
def cancel (w : Worker) : Worker := { w with cancelled := true }

/-- Nobody will bring batches any more. -/
def abandon (w : Worker) : Worker := { w with attended := false }

/-- The worker at rest for good; batches that still wait are dropped. -/
def stop (w : Worker) : Worker := { w with waiting := .empty, stopped := true }

/-! ## §2. Work -/

/-- What a step of the worker came to. -/
inductive Step where
  | idle
  | ended
  /-- A batch was taken in, and this is the report. -/
  | reported (event : Event)
  /-- A batch failed, which ends the worker. -/
  | failed (failure : Admission.Failure)

/-- Does the next thing there is to do. -/
def step (a : Admission) (now : Int64) (w : Worker) : Worker × Step :=
  if w.stopped then (w, .idle)
  else if w.cancelled then (w.stop, .ended)
  else
    match w.waiting.pop? with
    | none => if w.attended then (w, .idle) else (w.stop, .ended)
    | some (b, rest) =>
      match a.batch now w.tree b with
      | (tree, .ok event) => ({ w with tree, waiting := rest }, .reported event)
      | (tree, .error failure) => ({ w with tree }.stop, .failed failure)

/-- What the worker has come to after working as long as there was something to do. -/
structure Shift where
  worker : Worker
  events : List Event
  /-- The failure that ended the work, if one did. -/
  failure : Option Admission.Failure

/-- Works for at most `fuel` steps; `events` are the reports so far, latest first. -/
def workFor (a : Admission) (now : Int64) : (fuel : Nat) → Worker → (events : List Event) → Shift
  | 0, w, events => ⟨w, events.reverse, none⟩
  | fuel + 1, w, events =>
    match w.step a now with
    | (w, .reported event) => workFor a now fuel w (event :: events)
    | (w, .failed failure) => ⟨w, events.reverse, some failure⟩
    | (w, _) => ⟨w, events.reverse, none⟩

/-- Works until there is nothing left to do.  Each batch takes one step and coming to the end takes
one more. -/
def work (a : Admission) (now : Int64) (w : Worker) : Shift :=
  workFor a now (w.waiting.length + 1) w []

end Worker

end HeaderPeer
