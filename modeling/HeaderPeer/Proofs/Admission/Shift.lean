/-
  HeaderPeer.Proofs.Admission.Shift — a worker that works until nothing waits.

  A worker that has no reason to stop takes the batches that wait one by one, and then it is idle.
  Seen from outside, a shift is the turns of these batches, all at the time of the shift: the tree
  is the one that they leave, and the events are the reports on them.

  Main statements:
    * `step_of_next`, `step_of_empty` — a step with something to do, and one without.
    * `work_drains` — what a shift comes to.
-/
import HeaderPeer.Proofs.Admission.AnyOrder
import HeaderPeer.Proofs.Admission.Survival

namespace HeaderPeer

/-! ## §1. Turns -/

namespace Admission

variable {a : Admission} {t : HeaderTree}

theorem treeAfter_append (a : Admission) (t : HeaderTree) (turns later : List Turn) :
    a.treeAfter t (turns ++ later) = a.treeAfter (a.treeAfter t turns) later :=
  List.foldl_append

theorem reports_append (a : Admission) (t : HeaderTree) (turns later : List Turn) :
    a.reports t (turns ++ later) = a.reports t turns ++ a.reports (a.treeAfter t turns) later := by
  induction turns generalizing t with
  | nil => rfl
  | cons turn turns ih => exact congrArg ((a.batch turn.now t turn.batch).2 :: ·) (ih _)

@[simp] theorem length_reports (a : Admission) (t : HeaderTree) (turns : List Turn) :
    (a.reports t turns).length = turns.length := by
  induction turns generalizing t with
  | nil => rfl
  | cons turn turns ih => exact congrArg (· + 1) (ih _)

theorem batches_turnsAt (now : Int64) (batches : List Batch) :
    (turnsAt now batches).map Turn.batch = batches := by
  rw [turnsAt, List.map_map]
  exact List.map_id batches

theorem wellFormed_treeAfter (hselect : KeepsNodes a.select) (ht : t.WellFormed a.params.genesis)
    (turns : List Turn) : (a.treeAfter t turns).WellFormed a.params.genesis :=
  (leads_treeAfter .refl turns).invariant ht (wellFormed_accept hselect)

end Admission

/-! ## §2. Shifts -/

namespace Worker

open Admission (standard turnsAt)

/-- The worker has no reason to stop. -/
structure Steady (w : Worker) : Prop where
  running : w.stopped = false
  cancelled : w.cancelled = false
  attended : w.attended = true

section

variable {a : Admission} {now : Int64} {w : Worker}

theorem step_of_empty (a : Admission) (now : Int64) (h : w.Steady)
    (hempty : w.waiting.pop? = none) : w.step a now = (w, .idle) := by
  unfold step
  simp only [h.running, h.cancelled, hempty, h.attended, Bool.false_eq_true, if_false, if_true]

theorem step_of_next (h : w.Steady) {b : Admission.Batch} {rest : Queue Admission.Batch}
    (hnext : w.waiting.pop? = some (b, rest)) {event : Event}
    (hreport : (a.batch now w.tree b).2 = .ok event) :
    w.step a now
      = ({ w with tree := (a.batch now w.tree b).1, waiting := rest }, .reported event) := by
  have hsplit : a.batch now w.tree b = ((a.batch now w.tree b).1, .ok event) := Prod.ext rfl hreport
  unfold step
  simp only [h.running, h.cancelled, hnext, Bool.false_eq_true, if_false]
  rw [hsplit]

end

/-- What is left of a worker after it has taken in all batches that waited. -/
structure Drained (params : Params) (now : Int64) (w w' : Worker) (events : List Event) : Prop where
  steady : w'.Steady
  waiting : w'.waiting.toList = []
  tree : w'.tree = (standard params).treeAfter w.tree (turnsAt now w.waiting.toList)
  reports : (standard params).reports w.tree (turnsAt now w.waiting.toList) = events.map .ok

/-- One step for each batch, and one more in which there is nothing to do.  The induction is on the
batches that wait. -/
theorem workFor_drains (params : Params) (now : Int64) (batches : List Admission.Batch) :
    ∀ {w : Worker} (before : List Event), w.Steady → w.tree.WellFormed params.genesis →
      w.waiting.toList = batches →
      ∃ w' events, workFor (standard params) now (batches.length + 1) w before
          = ⟨w', before.reverse ++ events, none⟩
        ∧ Drained params now w w' events := by
  induction batches with
  | nil =>
    intro w before h _ hwaiting
    have hempty : w.waiting.pop? = none := Queue.pop?_eq_none_iff.2 hwaiting
    refine ⟨w, [], ?_, h, hwaiting, ?_, ?_⟩
    · rw [workFor, step_of_empty _ now h hempty, List.append_nil]
    · rw [hwaiting]
      rfl
    · rw [hwaiting]
      rfl
  | cons b batches ih =>
    intro w before h hwf hwaiting
    obtain ⟨event, hreport, -⟩ := Admission.batch_reported hwf now b
    cases hnext : w.waiting.pop? with
    | none =>
      rw [Queue.pop?_eq_none_iff.1 hnext] at hwaiting
      cases hwaiting
    | some next =>
      obtain ⟨b', rest⟩ := next
      have hsplit : w.waiting.toList = b' :: rest.toList := Queue.toList_of_pop? hnext
      obtain ⟨rfl, hrest⟩ := List.cons.inj (hwaiting.symm.trans hsplit)
      -- the first batch has its turn, and the others wait as they did
      let tree := ((standard params).batch now w.tree b).1
      have hwf' : tree.WellFormed params.genesis :=
        Admission.wellFormed_batch (a := standard params) Admission.highest_keepsNodes now b hwf
      obtain ⟨w', events, hwork, hdrained⟩ := ih (w := { w with tree, waiting := rest })
        (event :: before) ⟨h.running, h.cancelled, h.attended⟩ hwf' hrest.symm
      refine ⟨w', event :: events, ?_, hdrained.steady, hdrained.waiting, ?_, ?_⟩
      · rw [List.length_cons, workFor, step_of_next h hnext hreport]
        show workFor _ now (batches.length + 1) _ (event :: before) = _
        rw [hwork, List.reverse_cons, List.append_assoc]
        rfl
      · rw [hsplit]
        exact hdrained.tree
      · rw [hsplit]
        show (Admission.batch _ now w.tree b).2 :: (standard params).reports tree _ = _
        rw [hreport]
        exact congrArg (Except.ok event :: ·) hdrained.reports

/-- **A shift takes in all batches that wait**, in their order, and reports on each. -/
theorem work_drains {params : Params} {w : Worker} (h : w.Steady)
    (hwf : w.tree.WellFormed params.genesis) (now : Int64) :
    (w.work (standard params) now).failure = none
      ∧ Drained params now w (w.work (standard params) now).worker
          (w.work (standard params) now).events := by
  obtain ⟨w', events, hwork, hdrained⟩ := workFor_drains params now w.waiting.toList [] h hwf rfl
  rw [Queue.length_toList] at hwork
  rw [work, hwork]
  exact ⟨rfl, hdrained⟩

end Worker

end HeaderPeer
