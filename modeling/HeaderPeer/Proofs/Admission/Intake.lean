/-
  HeaderPeer.Proofs.Admission.Intake — the worker among those who bring it batches.

  A turn of the worker is not one act.  It looks whether it was cancelled, asks the queue, takes the
  batch in and publishes the report; meanwhile others bring batches, hand on the right to bring
  some, give it up, or cancel the worker.  Here each of these is a move of its own, and moves come in
  any order.  Four moves of the worker with nothing between them are one step of it.

  Main statement: `turn_eq_step`.
-/
import HeaderPeer.Admission.Worker
import HeaderPeer.Proofs.Admission.Sequence

namespace HeaderPeer

open Admission (Batch Turn standard)

/-! ## §1. Moves -/

namespace Intake

/-- A batch and who brings it. -/
structure Request where
  producer : Nat
  batch : Batch
  deriving DecidableEq, Repr

/-- What the worker does in its turn. -/
inductive Activity where
  | idle
  /-- It was not cancelled, and asks the queue. -/
  | listening
  /-- It has taken a batch out of the queue. -/
  | holding (b : Batch)
  /-- It has taken the batch in, and is to publish the report. -/
  | reporting (turn : Turn) (event : Event)
  deriving DecidableEq, Repr

namespace Activity

/-- The worker has no batch in its hands. -/
def Between : Activity → Prop
  | idle | listening => True
  | holding _ | reporting _ _ => False

/-- The batch that the worker has in its hands. -/
def held : Activity → List Batch
  | idle | listening => []
  | holding b => [b]
  | reporting turn _ => [turn.batch]

/-- The turn on which the worker is to report. -/
def unreported : Activity → List Turn
  | idle | listening | holding _ => []
  | reporting turn _ => [turn]

end Activity

end Intake

open Intake (Request Activity)

/-- A worker in the middle of its work, and what has happened so far. -/
structure Intake where
  worker : Worker
  activity : Activity
  /-- Who may bring batches, once for each right to do so. -/
  handles : List Nat
  /-- All requests, in the order in which they were made. -/
  asked : List Request
  /-- The requests that were accepted. -/
  accepted : List Request
  /-- The turns on which a report was published. -/
  taken : List Turn
  published : List Event

namespace Intake

/-- A worker that nobody has brought a batch yet. -/
def start (tree : HeaderTree) (handles : List Nat) : Intake where
  worker := { Worker.start tree with attended := !handles.isEmpty }
  activity := .idle
  handles
  asked := []
  accepted := []
  taken := []
  published := []

/-- Whoever may do so brings a batch and does not wait. -/
def request (s : Intake) (r : Request) : Intake :=
  if r.producer ∈ s.handles then
    match s.worker.submit r.batch with
    | .ok worker => { s with worker, asked := s.asked ++ [r], accepted := s.accepted ++ [r] }
    | .error _ => { s with asked := s.asked ++ [r] }
  else s

/-- Whoever may bring batches lets another do so as well. -/
def share (s : Intake) (producer other : Nat) : Intake :=
  if producer ∈ s.handles then { s with handles := other :: s.handles } else s

/-- Gives up the right to bring batches. -/
def leave (s : Intake) (producer : Nat) : Intake :=
  let handles := s.handles.erase producer
  { s with handles, worker := if handles.isEmpty then s.worker.abandon else s.worker }

def cancel (s : Intake) : Intake := { s with worker := s.worker.cancel }

/-- The worker looks whether it was cancelled. -/
def look (s : Intake) : Intake :=
  match s.activity with
  | .idle =>
    if s.worker.stopped then s
    else if s.worker.cancelled then { s with worker := s.worker.stop }
    else { s with activity := .listening }
  | _ => s

/-- The worker asks the queue. -/
def receive (s : Intake) : Intake :=
  match s.activity with
  | .listening =>
    match s.worker.waiting.pop? with
    | none =>
      { s with activity := .idle, worker := if s.worker.attended then s.worker else s.worker.stop }
    | some (b, rest) => { s with activity := .holding b, worker := { s.worker with waiting := rest } }
  | _ => s

/-- The worker takes in the batch that it holds. -/
def judge (a : Admission) (now : Int64) (s : Intake) : Intake :=
  match s.activity with
  | .holding b =>
    match a.batch now s.worker.tree b with
    | (tree, .ok event) =>
      { s with activity := .reporting ⟨now, b⟩ event, worker := { s.worker with tree } }
    | (tree, .error _) => { s with activity := .idle, worker := { s.worker with tree }.stop }
  | _ => s

/-- The worker publishes its report. -/
def report (s : Intake) : Intake :=
  match s.activity with
  | .reporting turn event =>
    { s with activity := .idle, taken := s.taken ++ [turn], published := s.published ++ [event] }
  | _ => s

/-- What can happen next; what is not possible changes nothing. -/
inductive Move where
  | request (r : Request)
  | share (producer other : Nat)
  | leave (producer : Nat)
  | cancel
  | look
  | receive
  | judge (now : Int64)
  | report
  deriving DecidableEq, Repr

def move (a : Admission) (s : Intake) : Move → Intake
  | .request r => s.request r
  | .share producer other => s.share producer other
  | .leave producer => s.leave producer
  | .cancel => s.cancel
  | .look => s.look
  | .receive => s.receive
  | .judge now => s.judge a now
  | .report => s.report

def run (a : Admission) (s : Intake) (moves : List Move) : Intake := moves.foldl (move a) s

/-- The turn that a move makes: the worker takes in what it holds, at the time that its clock shows
then. -/
def turn? (s : Intake) : Move → Option Turn
  | .judge now =>
    match s.activity with
    | .holding b => some ⟨now, b⟩
    | _ => none
  | _ => none

/-- The turns that moves make, in their order. -/
def turns (a : Admission) (s : Intake) : List Move → List Turn
  | [] => []
  | m :: moves => (s.turn? m).toList ++ (s.move a m).turns a moves

/-! ## §2. One turn -/

/-- The reports that a step of the worker publishes. -/
def eventsOf : Worker.Step → List Event
  | .reported event => [event]
  | .idle | .ended | .failed _ => []

/-- **The moves of one turn, with nothing between them, are a step of the worker.** -/
theorem turn_eq_step (a : Admission) (now : Int64) {s : Intake} (hidle : s.activity = .idle) :
    let s' := s.run a [.look, .receive, .judge now, .report]
    let step := s.worker.step a now
    s'.activity = .idle ∧ s'.worker = step.1 ∧ s'.published = s.published ++ eventsOf step.2 := by
  have hrun : s.run a [.look, .receive, .judge now, .report]
      = (s.look.receive.judge a now).report := rfl
  simp only [hrun]
  cases hstopped : s.worker.stopped with
  | true => simp [look, receive, judge, report, Worker.step, eventsOf, hidle, hstopped]
  | false =>
    cases hcancelled : s.worker.cancelled with
    | true =>
      simp [look, receive, judge, report, Worker.step, eventsOf, hidle, hstopped, hcancelled]
    | false =>
      have hlook : s.look = { s with activity := .listening } := by
        simp [look, hidle, hstopped, hcancelled]
      rw [hlook]
      cases hpop : s.worker.waiting.pop? with
      | none =>
        -- nothing waits, and the worker stops if nobody is left to change that
        cases hattended : s.worker.attended <;>
          simp [receive, judge, report, Worker.step, eventsOf, hstopped, hcancelled, hpop,
            hattended]
      | some next =>
        obtain ⟨b, rest⟩ := next
        rcases hbatch : a.batch now s.worker.tree b with ⟨tree, failure | event⟩
        · simp [receive, judge, report, Worker.step, Worker.stop, eventsOf, hstopped, hcancelled,
            hpop, hbatch]
        · simp [receive, judge, report, Worker.step, eventsOf, hstopped, hcancelled, hpop, hbatch]

end Intake

end HeaderPeer
