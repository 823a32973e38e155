/-
  HeaderPeer.Proofs.Admission.IntakeOrder — batches of many are reported on in the order in which
  they came.

  All batches that were accepted are, in the order in which they came: those that were reported on,
  the one that the worker has in its hands, those that wait, and those that were dropped when it
  stopped (`Orderly.account`).  A batch leaves one of these parts only for the one before it, at its
  end, and the tree follows the reports.  Every move keeps this.  Which turns were made, and at what
  times, is told by the moves alone (`turns`).

  Main statements:
    * `Orderly.move`, `orderly_run` — what every move preserves, and every run.
    * `Orderly.turns_move`, `Orderly.turns_run` — the turns that moves make are those reported on.
    * `settled_run` — a worker that has stopped.
    * `published_in_order` — the reports are those on the batches, in order.
-/
import HeaderPeer.Proofs.Admission.Intake
import HeaderPeer.Proofs.Admission.Survival

namespace HeaderPeer.Intake

open Admission (Batch Turn standard)

/-! ## §1. What every move preserves -/

/-- A worker that has stopped refuses every batch. -/
theorem submit_of_stopped {w : Worker} (h : w.stopped = true) (b : Batch) :
    w.submit b = .error {} := if_pos h

/-- A worker that has not stopped accepts every batch. -/
theorem submit_of_running {w : Worker} (h : w.stopped = false) (b : Batch) :
    w.submit b = .ok { w with waiting := w.waiting.push b } := by
  rw [Worker.submit, h]
  rfl

/-- How the tree follows from the turns before: the worker has taken in the batch that it is to
report on, and nothing else. -/
def Activity.Fits (a : Admission) (before tree : HeaderTree) : Activity → Prop
  | .reporting turn event => a.batch turn.now before turn.batch = (tree, .ok event)
  | .idle | .listening | .holding _ => tree = before

theorem Activity.Between.held_eq {activity : Activity} (h : activity.Between) : activity.held = [] := by
  cases activity with
  | idle | listening => rfl
  | holding b => cases h
  | reporting turn event => cases h

theorem Activity.Between.tree_eq {a : Admission} {before tree : HeaderTree} {activity : Activity}
    (h : activity.Between) (hfits : activity.Fits a before tree) : tree = before := by
  cases activity with
  | idle | listening => exact hfits
  | holding b => cases h
  | reporting turn event => cases h

/-- Nothing is lost, repeated or moved. -/
structure Orderly (params : Params) (s : Intake) : Prop where
  tree : s.activity.Fits (standard params)
    ((standard params).treeAfter (.ofGenesis params.genesis) s.taken) s.worker.tree
  reported : (standard params).reports (.ofGenesis params.genesis) s.taken
    = s.published.map .ok
  /-- All batches that were accepted, in their order; some are dropped if the worker was told to
  stop. -/
  account : ∃ dropped, s.accepted.map Request.batch
      = s.taken.map Turn.batch ++ s.activity.held ++ s.worker.waiting.toList ++ dropped
    ∧ (dropped = [] ∨ s.worker.stopped = true ∧ s.worker.cancelled = true)
  entered : s.accepted <+: s.asked
  running : s.worker.stopped = false → s.accepted = s.asked
  rests : s.worker.stopped = false ∨ s.activity = .idle

variable {params : Params} {s : Intake}

theorem orderly_start (params : Params) (handles : List Nat) :
    (start (.ofGenesis params.genesis) handles).Orderly params where
  tree := rfl
  reported := rfl
  account := ⟨[], rfl, .inl rfl⟩
  entered := List.prefix_rfl
  running := fun _ => rfl
  rests := .inl rfl

/-- While the worker has not stopped, nothing was dropped. -/
theorem Orderly.account_of_running (h : s.Orderly params) (hrunning : s.worker.stopped = false) :
    s.accepted.map Request.batch
      = s.taken.map Turn.batch ++ s.activity.held ++ s.worker.waiting.toList := by
  obtain ⟨dropped, haccount, hdropped⟩ := h.account
  rcases hdropped with rfl | ⟨hstopped, -⟩
  · rw [haccount, List.append_nil]
  · rw [hrunning] at hstopped
    cases hstopped

theorem Orderly.request (h : s.Orderly params) (r : Request) : (s.request r).Orderly params := by
  unfold Intake.request
  split
  · cases hstopped : s.worker.stopped with
    | true =>
      -- the request is refused
      rw [submit_of_stopped hstopped]
      refine ⟨h.tree, h.reported, h.account, ?_, ?_, h.rests⟩
      · exact h.entered.trans (List.prefix_append _ _)
      · intro hrunning
        rw [hstopped] at hrunning
        cases hrunning
    | false =>
      have hsame : s.accepted ++ [r] = s.asked ++ [r] := by rw [h.running hstopped]
      rw [submit_of_running hstopped]
      refine ⟨h.tree, h.reported, ⟨[], ?_, .inl rfl⟩, ?_, fun _ => hsame, h.rests⟩
      · show (s.accepted ++ [r]).map Request.batch = _ ++ (s.worker.waiting.push r.batch).toList ++ []
        rw [List.map_append, h.account_of_running hstopped, Queue.toList_push]
        simp only [List.append_assoc, List.append_nil]
        rfl
      · show s.accepted ++ [r] <+: s.asked ++ [r]
        exact hsame ▸ List.prefix_rfl
  · exact h

/-- Who may bring batches does not matter to those that are there. -/
theorem Orderly.share (h : s.Orderly params) (producer other : Nat) :
    (s.share producer other).Orderly params := by
  unfold Intake.share
  split
  · exact ⟨h.tree, h.reported, h.account, h.entered, h.running, h.rests⟩
  · exact h

theorem Orderly.leave (h : s.Orderly params) (producer : Nat) :
    (s.leave producer).Orderly params := by
  unfold Intake.leave
  dsimp only
  split
  · exact ⟨h.tree, h.reported, h.account, h.entered, h.running, h.rests⟩
  · exact ⟨h.tree, h.reported, h.account, h.entered, h.running, h.rests⟩

theorem Orderly.cancel (h : s.Orderly params) : s.cancel.Orderly params := by
  obtain ⟨dropped, haccount, hdropped⟩ := h.account
  refine ⟨h.tree, h.reported, ⟨dropped, haccount, ?_⟩, h.entered, h.running, h.rests⟩
  exact hdropped.imp id fun hgone => ⟨hgone.1, rfl⟩

/-- A worker that stops with nothing in its hands drops what waits, and something waits only if it
was told to stop. -/
theorem Orderly.stop (h : s.Orderly params) (hrunning : s.worker.stopped = false)
    (hbetween : s.activity.Between)
    (htold : s.worker.cancelled = true ∨ s.worker.waiting.toList = []) :
    ({ s with activity := .idle, worker := s.worker.stop } : Intake).Orderly params := by
  have haccount := h.account_of_running hrunning
  refine ⟨hbetween.tree_eq h.tree, h.reported, ⟨s.worker.waiting.toList, ?_, ?_⟩, h.entered, ?_,
    .inr rfl⟩
  · rw [hbetween.held_eq, List.append_nil] at haccount
    show _ = s.taken.map Turn.batch ++ [] ++ [] ++ s.worker.waiting.toList
    rw [List.append_nil, List.append_nil]
    exact haccount
  · rcases htold with hcancelled | hempty
    · exact .inr ⟨rfl, hcancelled⟩
    · exact .inl hempty
  · intro hopen
    cases hopen

theorem Orderly.look (h : s.Orderly params) : s.look.Orderly params := by
  unfold Intake.look
  split
  · next hidle =>
    have hbetween : s.activity.Between := by
      rw [hidle]
      trivial
    split
    · exact h
    · next hopen =>
      have hrunning : s.worker.stopped = false := Bool.eq_false_iff.2 hopen
      split
      · next hcancelled => exact hidle ▸ h.stop hrunning hbetween (.inl hcancelled)
      · refine ⟨hbetween.tree_eq h.tree, h.reported, ⟨[], ?_, .inl rfl⟩, h.entered, h.running,
          .inl hrunning⟩
        rw [h.account_of_running hrunning, hidle, List.append_nil]
        rfl
  · exact h

theorem Orderly.receive (h : s.Orderly params) : s.receive.Orderly params := by
  unfold Intake.receive
  split
  · next hlistening =>
    have hrunning : s.worker.stopped = false := h.rests.resolve_right (by rw [hlistening]; nofun)
    have hbetween : s.activity.Between := by
      rw [hlistening]
      trivial
    have haccount := h.account_of_running hrunning
    have htree := hbetween.tree_eq h.tree
    split
    · next hpop =>
      -- nothing waits
      have hempty : s.worker.waiting.toList = [] := Queue.pop?_eq_none_iff.1 hpop
      split
      · refine ⟨htree, h.reported, ⟨[], ?_, .inl rfl⟩, h.entered, h.running, .inr rfl⟩
        rw [haccount, hlistening, List.append_nil]
        rfl
      · exact h.stop hrunning hbetween (.inr hempty)
    · next b rest hpop =>
      refine ⟨htree, h.reported, ⟨[], ?_, .inl rfl⟩, h.entered, h.running, .inl hrunning⟩
      rw [haccount, hlistening, Queue.toList_of_pop? hpop]
      simp [Activity.held]
  · exact h

/-- The worker holds a batch in a tree that batches lead to, so taking the batch in ends in a
report. -/
theorem Orderly.batch_ok (h : s.Orderly params) {b : Batch} (hholding : s.activity = .holding b)
    (now : Int64) :
    ∃ tree event, (standard params).batch now s.worker.tree b = (tree, .ok event) := by
  have htree : s.worker.tree
      = (standard params).treeAfter (.ofGenesis params.genesis) s.taken := by
    have hfits := h.tree
    rw [hholding] at hfits
    exact hfits
  have hreach : (standard params).Reachable s.worker.tree := by
    rw [htree]
    exact Admission.leads_treeAfter .refl s.taken
  obtain ⟨event, hreport, -⟩ := Admission.batch_reported
    (Admission.reachable_wellFormed Admission.highest_keepsNodes hreach) now b
  exact ⟨_, event, Prod.ext rfl hreport⟩

theorem Orderly.judge (h : s.Orderly params) (now : Int64) :
    (s.judge (standard params) now).Orderly params := by
  unfold Intake.judge
  split
  · next b hholding =>
    have hrunning : s.worker.stopped = false := h.rests.resolve_right (by rw [hholding]; nofun)
    have hfits := h.tree
    have haccount := h.account_of_running hrunning
    rw [hholding] at hfits haccount
    have htree : s.worker.tree
        = (standard params).treeAfter (.ofGenesis params.genesis) s.taken := hfits
    obtain ⟨tree, event, hbatch⟩ := h.batch_ok hholding now
    rw [hbatch]
    refine ⟨?_, h.reported, ⟨[], ?_, .inl rfl⟩, h.entered, h.running, .inl hrunning⟩
    · show (standard params).batch now _ b = (_, .ok event)
      rw [← htree]
      exact hbatch
    · rw [haccount, List.append_nil]
      rfl
  · exact h

theorem Orderly.report (h : s.Orderly params) : s.report.Orderly params := by
  unfold Intake.report
  split
  · next turn event hreporting =>
    have hrunning : s.worker.stopped = false := h.rests.resolve_right (by rw [hreporting]; nofun)
    have hfits := h.tree
    have haccount := h.account_of_running hrunning
    rw [hreporting] at hfits haccount
    have hbatch : (standard params).batch turn.now
        ((standard params).treeAfter (.ofGenesis params.genesis) s.taken) turn.batch
          = (s.worker.tree, .ok event) := hfits
    refine ⟨?_, ?_, ⟨[], ?_, .inl rfl⟩, h.entered, h.running, .inr rfl⟩
    · show s.worker.tree = (standard params).treeAfter _ (s.taken ++ [turn])
      rw [Admission.treeAfter_concat, hbatch]
    · show (standard params).reports _ (s.taken ++ [turn]) = (s.published ++ [event]).map .ok
      rw [Admission.reports_concat, hbatch, h.reported, List.map_append]
      rfl
    · rw [haccount]
      simp [Activity.held]
  · exact h

/-- **Every move preserves the order.** -/
theorem Orderly.move (h : s.Orderly params) (m : Move) :
    (s.move (standard params) m).Orderly params := by
  cases m with
  | request r => exact h.request r
  | share producer other => exact h.share producer other
  | leave producer => exact h.leave producer
  | cancel => exact h.cancel
  | look => exact h.look
  | receive => exact h.receive
  | judge now => exact h.judge now
  | report => exact h.report

theorem orderly_run (h : s.Orderly params) (moves : List Move) :
    (s.run (standard params) moves).Orderly params := by
  induction moves generalizing s with
  | nil => exact h
  | cons m moves ih => exact ih (h.move m)

/-! ## §2. Turns -/

/-- A move that makes no turn and publishes no report leaves the turns alone. -/
theorem turns_of_same {a : Admission} {m : Move} (hturn : s.turn? m = none)
    (htaken : (s.move a m).taken = s.taken)
    (hactivity : (s.move a m).activity.unreported = s.activity.unreported) :
    (s.move a m).taken ++ (s.move a m).activity.unreported
      = s.taken ++ s.activity.unreported ++ (s.turn? m).toList := by
  rw [hturn, htaken, hactivity]
  exact (List.append_nil _).symm

/-- Taking in what the worker holds is a turn, and the worker is to report on it. -/
theorem Orderly.turns_judge (h : s.Orderly params) (now : Int64) :
    (s.judge (standard params) now).taken ++ (s.judge (standard params) now).activity.unreported
      = s.taken ++ s.activity.unreported ++ (s.turn? (.judge now)).toList := by
  cases hactivity : s.activity with
  | holding b =>
    obtain ⟨tree, event, hbatch⟩ := h.batch_ok hactivity now
    have hjudge : (s.judge (standard params) now).taken = s.taken
        ∧ (s.judge (standard params) now).activity = .reporting ⟨now, b⟩ event := by
      unfold Intake.judge
      simp only [hactivity, hbatch, and_self]
    have hturn : s.turn? (.judge now) = some ⟨now, b⟩ := by simp only [turn?, hactivity]
    rw [hjudge.1, hjudge.2, hturn]
    simp [Activity.unreported]
  | idle | listening | reporting turn event =>
    have hsame : s.judge (standard params) now = s := by
      unfold Intake.judge
      simp only [hactivity]
    have hturn : s.turn? (.judge now) = none := by simp only [turn?, hactivity]
    rw [hsame, hturn, hactivity]
    exact (List.append_nil _).symm

/-- Reporting on a turn makes it one of those that were reported on. -/
theorem turns_report (s : Intake) :
    s.report.taken ++ s.report.activity.unreported = s.taken ++ s.activity.unreported := by
  unfold Intake.report
  split
  · next turn event hreporting => simp [hreporting, Activity.unreported]
  · rfl

/-- **The turns that were reported on, and the one that is still to be reported on, are those that
were made.**  One move makes one turn or none. -/
theorem Orderly.turns_move (h : s.Orderly params) (m : Move) :
    (s.move (standard params) m).taken ++ (s.move (standard params) m).activity.unreported
      = s.taken ++ s.activity.unreported ++ (s.turn? m).toList := by
  cases m with
  | request r =>
    have hsame : (s.request r).taken = s.taken ∧ (s.request r).activity = s.activity := by
      unfold Intake.request
      split
      · split <;> exact ⟨rfl, rfl⟩
      · exact ⟨rfl, rfl⟩
    exact turns_of_same rfl hsame.1 (congrArg Activity.unreported hsame.2)
  | share producer other =>
    have hsame : (s.share producer other).taken = s.taken
        ∧ (s.share producer other).activity = s.activity := by
      unfold Intake.share
      split <;> exact ⟨rfl, rfl⟩
    exact turns_of_same rfl hsame.1 (congrArg Activity.unreported hsame.2)
  | leave producer => exact turns_of_same rfl rfl rfl
  | cancel => exact turns_of_same rfl rfl rfl
  | look =>
    have hsame : s.look.taken = s.taken ∧ s.look.activity.unreported = s.activity.unreported := by
      unfold Intake.look
      split
      · next hidle => split_ifs <;> simp [hidle, Activity.unreported]
      · exact ⟨rfl, rfl⟩
    exact turns_of_same rfl hsame.1 hsame.2
  | receive =>
    have hsame : s.receive.taken = s.taken
        ∧ s.receive.activity.unreported = s.activity.unreported := by
      unfold Intake.receive
      split
      · next hlistening => split <;> simp [hlistening, Activity.unreported]
      · exact ⟨rfl, rfl⟩
    exact turns_of_same rfl hsame.1 hsame.2
  | judge now => exact h.turns_judge now
  | report => exact s.turns_report.trans (List.append_nil _).symm

theorem Orderly.turns_run (h : s.Orderly params) (moves : List Move) :
    (s.run (standard params) moves).taken ++ (s.run (standard params) moves).activity.unreported
      = s.taken ++ s.activity.unreported ++ s.turns (standard params) moves := by
  induction moves generalizing s with
  | nil => exact (List.append_nil _).symm
  | cons m moves ih =>
    show ((s.move (standard params) m).run (standard params) moves).taken
      ++ ((s.move (standard params) m).run (standard params) moves).activity.unreported = _
    rw [ih (h.move m), h.turns_move m, turns, List.append_assoc]

/-! ## §3. A worker that has stopped -/

/-- Nothing has come of all that happened after `s₀`, in which the worker had stopped. -/
structure Settled (s₀ s : Intake) : Prop where
  stopped : s.worker.stopped = true
  activity : s.activity = .idle
  tree : s.worker.tree = s₀.worker.tree
  accepted : s.accepted = s₀.accepted
  published : s.published = s₀.published

theorem Settled.move {s₀ : Intake} (a : Admission) (h : Settled s₀ s) (m : Move) :
    Settled s₀ (s.move a m) := by
  cases m with
  | request r =>
    show Settled s₀ (s.request r)
    unfold Intake.request
    rw [submit_of_stopped h.stopped]
    split
    · exact ⟨h.stopped, h.activity, h.tree, h.accepted, h.published⟩
    · exact h
  | share producer other =>
    show Settled s₀ (s.share producer other)
    unfold Intake.share
    split
    · exact ⟨h.stopped, h.activity, h.tree, h.accepted, h.published⟩
    · exact h
  | leave producer =>
    show Settled s₀ (s.leave producer)
    unfold Intake.leave
    dsimp only
    split
    · exact ⟨h.stopped, h.activity, h.tree, h.accepted, h.published⟩
    · exact ⟨h.stopped, h.activity, h.tree, h.accepted, h.published⟩
  | cancel => exact ⟨h.stopped, h.activity, h.tree, h.accepted, h.published⟩
  | look =>
    have hsame : s.look = s := by
      rw [Intake.look, h.activity]
      exact if_pos h.stopped
    show Settled s₀ s.look
    rw [hsame]
    exact h
  | receive =>
    have hsame : s.receive = s := by rw [Intake.receive, h.activity]
    show Settled s₀ s.receive
    rw [hsame]
    exact h
  | judge now =>
    have hsame : s.judge a now = s := by rw [Intake.judge, h.activity]
    show Settled s₀ (s.judge a now)
    rw [hsame]
    exact h
  | report =>
    have hsame : s.report = s := by rw [Intake.report, h.activity]
    show Settled s₀ s.report
    rw [hsame]
    exact h

theorem settled_run {s₀ : Intake} (a : Admission) (h : Settled s₀ s) (moves : List Move) :
    Settled s₀ (s.run a moves) := by
  induction moves generalizing s with
  | nil => exact h
  | cons m moves ih => exact ih (h.move a m)

/-! ## §4. All runs -/

/-- Only a cancellation cancels. -/
theorem cancelled_move (a : Admission) (s : Intake) {m : Move} (hm : m ≠ .cancel) :
    (s.move a m).worker.cancelled = s.worker.cancelled := by
  cases m with
  | request r =>
    show (s.request r).worker.cancelled = _
    unfold Intake.request Worker.submit
    split_ifs <;> rfl
  | share producer other =>
    show (s.share producer other).worker.cancelled = _
    unfold Intake.share
    split <;> rfl
  | leave producer =>
    show (s.leave producer).worker.cancelled = _
    unfold Intake.leave
    dsimp only
    split <;> rfl
  | cancel => exact absurd rfl hm
  | look =>
    show s.look.worker.cancelled = _
    unfold Intake.look
    split
    · split_ifs <;> rfl
    · rfl
  | receive =>
    show s.receive.worker.cancelled = _
    unfold Intake.receive
    split
    · split
      · dsimp only
        split <;> rfl
      · rfl
    · rfl
  | judge now =>
    show (s.judge a now).worker.cancelled = _
    unfold Intake.judge
    split
    · split <;> rfl
    · rfl
  | report =>
    show s.report.worker.cancelled = _
    unfold Intake.report
    split <;> rfl

theorem cancelled_run (a : Admission) (s : Intake) {moves : List Move}
    (hmoves : Move.cancel ∉ moves) : (s.run a moves).worker.cancelled = s.worker.cancelled := by
  induction moves generalizing s with
  | nil => rfl
  | cons m moves ih =>
    obtain ⟨hm, hrest⟩ := not_or.1 (mt List.mem_cons.2 hmoves)
    show ((s.move a m).run a moves).worker.cancelled = _
    rw [ih (s.move a m) hrest, cancelled_move a s (Ne.symm hm)]

/-- Each report names the peer that brought the batch. -/
theorem peer_of_reports (turns : List Turn) :
    ∀ {t : HeaderTree} {events : List Event}, t.WellFormed params.genesis →
      (standard params).reports t turns = events.map .ok →
      events.map Event.peer = turns.map fun turn => turn.batch.peer := by
  induction turns with
  | nil =>
    intro t events _ h
    rw [List.map_eq_nil_iff.1 h.symm]
    rfl
  | cons turn turns ih =>
    intro t events hwf h
    cases events with
    | nil => cases h
    | cons event events =>
      obtain ⟨hfirst, hrest⟩ := List.cons.inj h
      obtain ⟨event', hreport, hpeer⟩ := Admission.batch_reported hwf turn.now turn.batch
      cases hfirst.symm.trans hreport
      have hwf' : ((standard params).batch turn.now t turn.batch).1.WellFormed params.genesis :=
        Admission.wellFormed_batch Admission.highest_keepsNodes turn.now turn.batch hwf
      rw [List.map_cons, List.map_cons, hpeer, ih hwf' hrest]

/-- **The reports are those on the batches, one each, in the order in which they were accepted.**
Whoever brings batches, whatever the worker is told and whenever it works: the reports so far are
those on some first batches of all that were accepted, taken in one after the other from the first
header on, at the times at which the moves took them in, and each names the peer of its batch; all
batches of one producer keep their order; and between two batches the tree is the one that those
batches lead to.  Every request is accepted as long as the worker has not stopped, and if it is never
cancelled, nothing is left once the queue is empty.  An idle worker that is left to itself for one
turn takes one step of a worker.  After it has stopped, whatever happens, all requests are refused and
nothing changes. -/
theorem published_in_order (params : Params) (handles : List Nat) (moves : List Move) :
    let a := standard params
    let genesis := HeaderTree.ofGenesis params.genesis
    let s := (start genesis handles).run a moves
    (∃ turns done, (start genesis handles).turns a moves = turns ++ s.activity.unreported
      ∧ done <+: s.accepted ∧ done.map Request.batch = turns.map Turn.batch
      ∧ s.published.map .ok = a.reports genesis turns
      ∧ s.published.map Event.peer = turns.map (fun turn => turn.batch.peer)
      ∧ (∀ p, done.filter (·.producer = p) <+: s.asked.filter (·.producer = p))
      ∧ (s.activity.Between → s.worker.tree = a.treeAfter genesis turns)
      ∧ (.cancel ∉ moves → s.activity.Between → s.worker.waiting.toList = [] → done = s.accepted))
    ∧ s.accepted <+: s.asked
    ∧ (s.worker.stopped = false → s.accepted = s.asked)
    ∧ (s.activity = .idle → ∀ now,
        let s' := s.run a [.look, .receive, .judge now, .report]
        let step := s.worker.step a now
        s'.activity = .idle ∧ s'.worker = step.1
          ∧ s'.published = s.published ++ eventsOf step.2)
    ∧ (s.worker.stopped = true → ∀ more, let s' := s.run a more
        (∀ b, s'.worker.submit b = .error {}) ∧ s'.accepted = s.accepted
          ∧ s'.published = s.published ∧ s'.worker.tree = s.worker.tree) := by
  intro a genesis s
  have h : s.Orderly params := orderly_run (orderly_start params handles) moves
  have hturns : s.taken ++ s.activity.unreported = (start genesis handles).turns a moves :=
    (orderly_start params handles).turns_run moves
  refine ⟨⟨s.taken, s.accepted.take s.taken.length, hturns.symm, List.take_prefix _ _, ?_,
    h.reported.symm,
    peer_of_reports s.taken (HeaderTree.wellFormed_ofGenesis params.genesis) h.reported, ?_,
    fun hbetween => hbetween.tree_eq h.tree, ?_⟩, h.entered, h.running,
    fun hidle now => turn_eq_step a now hidle, ?_⟩
  · obtain ⟨dropped, haccount, -⟩ := h.account
    rw [List.map_take, haccount, List.append_assoc, List.append_assoc]
    exact List.take_left' (List.length_map _)
  · intro p
    exact ((List.take_prefix _ _).trans h.entered).filter _
  · intro hmoves hbetween hempty
    have huncancelled : s.worker.cancelled = false := cancelled_run a (start genesis handles) hmoves
    -- so nothing was dropped, and nothing is in the worker's hands
    have haccount : s.accepted.map Request.batch = s.taken.map Turn.batch := by
      obtain ⟨dropped, haccount, rfl | ⟨-, hcancelled⟩⟩ := h.account
      · rw [haccount, hbetween.held_eq, hempty, List.append_nil, List.append_nil, List.append_nil]
      · rw [huncancelled] at hcancelled
        cases hcancelled
    have hlength := congrArg List.length haccount
    rw [List.length_map, List.length_map] at hlength
    exact List.take_of_length_le (Nat.le_of_eq hlength)
  · intro hstopped more
    have hidle : s.activity = .idle := h.rests.resolve_left (by rw [hstopped]; nofun)
    have hsettled : Settled s (s.run a more) :=
      settled_run a ⟨hstopped, hidle, rfl, rfl, rfl⟩ more
    exact ⟨submit_of_stopped hsettled.stopped, hsettled.accepted, hsettled.published, hsettled.tree⟩

end HeaderPeer.Intake
