/-
  HeaderPeer.Proofs.Admission.Boundaries — where one batch ends and the next begins does not matter.

  What becomes of a header depends on the tree and on the clock, and on nothing that the batch has
  gathered before it.  So a run that begins with a tally goes as one that begins anew in the same
  tree, and only the counts go on from where they were (`Tally.join`).  Peers may cut a chain into
  batches as they like: up to the first header that is not good the tree is the same.

  Main statements:
    * `run_join` — a run behind a tally is a run of its own, joined to the tally.
    * `run_flatten` — good batches leave what one batch of all their headers leaves.
    * `batch_boundaries` — what a batch of two lists comes to, and every split of a list.
-/
import HeaderPeer.Proofs.Admission.AnyOrder

namespace HeaderPeer.Admission

variable {a : Admission} {now : Int64} {t : HeaderTree}

/-! ## §1. Tallies -/

namespace Tally

/-- What has come of two lists, from what has come of each; the second was begun anew in the tree
that the first one left. -/
def join (front back : Tally) : Tally where
  tree := back.tree
  total := front.total + back.total
  fresh := front.fresh + back.fresh
  last := back.last.or front.last

theorem join_start (front : Tally) : front.join (.start front.tree) = front := rfl

theorem join_add (front back : Tally) (header : Header) (i : HeaderTree.Insertion) :
    front.join (back.add header i) = (front.join back).add header i := by
  have hfresh : front.fresh + (if i.fresh then back.fresh + 1 else back.fresh)
      = if i.fresh then front.fresh + back.fresh + 1 else front.fresh + back.fresh := by
    split <;> rfl
  rw [join, add, add, hfresh]
  rfl

end Tally

/-! ## §2. Runs -/

/-- **A run does not look at the counts.**  Behind a tally it goes as a run that begins anew. -/
theorem run_join (a : Admission) (now : Int64) (headers : List Header) (front : Tally) :
    ∀ back : Tally, a.run now headers (front.join back)
      = (front.join (a.run now headers back).1, (a.run now headers back).2) := by
  induction headers with
  | nil => exact fun back => rfl
  | cons header headers ih =>
    intro back
    have htree : (front.join back).tree = back.tree := rfl
    unfold run
    rw [htree]
    cases a.accept now back.tree header with
    | ok i =>
      show a.run now headers ((front.join back).add header i) = _
      rw [← Tally.join_add]
      exact ih (back.add header i)
    | error stop => rfl

/-- Two lists that are taken in as one. -/
theorem run_two (xs ys : List Header) {first : Tally}
    (h : a.run now xs (.start t) = (first, none)) :
    a.run now (xs ++ ys) (.start t)
      = (first.join (a.run now ys (.start first.tree)).1,
        (a.run now ys (.start first.tree)).2) := by
  rw [run_append, h]
  show a.run now ys first = _
  rw [← run_join, Tally.join_start]

/-- There is a last header exactly if a header was taken in. -/
theorem run_last (headers : List Header) :
    ∀ {tally : Tally}, (tally.last = none ↔ tally.total = 0) →
      ((a.run now headers tally).1.last = none ↔ (a.run now headers tally).1.total = 0) := by
  induction headers with
  | nil => exact fun h => h
  | cons header headers ih =>
    intro tally h
    unfold run
    split
    · refine ih ⟨?_, ?_⟩
      · intro hnone
        cases hnone
      · intro hzero
        cases hzero
    · exact h

/-! ## §3. Batches -/

/-- **Good batches leave what one batch of all their headers leaves.** -/
theorem run_flatten (batches : List Batch) :
    ∀ {t : HeaderTree}, (∀ report ∈ a.reports t (turnsAt now batches), AllValid report) →
      ∃ tally, a.run now (batches.flatMap Batch.headers) (.start t) = (tally, none)
        ∧ tally.tree = a.treeAfter t (turnsAt now batches) := by
  induction batches with
  | nil => exact fun _ => ⟨_, rfl, rfl⟩
  | cons b batches ih =>
    intro t hvalid
    obtain ⟨hfirst, hrest⟩ := List.forall_mem_cons.1 hvalid
    obtain ⟨first, hrun⟩ := run_of_allValid hfirst
    have htree : (a.batch now t b).1 = first.tree := (batch_of_run hrun).1
    obtain ⟨back, hback, hafter⟩ := ih hrest
    rw [htree] at hback
    refine ⟨first.join back, ?_, hafter⟩
    rw [List.flatMap_cons, run_two b.headers _ hrun, hback]

/-- A batch that is not good ends what can be taken in. -/
theorem run_of_not_allValid {b : Batch} (h : ¬ AllValid (a.batch now t b).2) :
    ∃ stop, (a.run now b.headers (.start t)).2 = some stop := by
  cases hrun : (a.run now b.headers (.start t)).2 with
  | some stop => exact ⟨stop, rfl⟩
  | none => exact absurd ⟨_, _, _, _, (batch_of_run (Prod.ext rfl hrun)).2⟩ h

/-- What is taken in behind a header that is not good is nothing. -/
theorem run_append_of_stop {stop : Stop} (xs ys : List Header) {tally : Tally}
    (h : (a.run now xs tally).2 = some stop) :
    a.run now (xs ++ ys) tally = a.run now xs tally := by
  have hsplit : a.run now xs tally = ((a.run now xs tally).1, some stop) := Prod.ext rfl h
  rw [run_append, hsplit]

/-- **Where a batch ends does not matter.**  If a list is good, then a batch of it and another list
leaves the tree that the two leave one after the other; the counts add up, the fault is that of the
second list, and the last header is that of the second list if any of it was taken in.  If a list is
not good, then it does not matter what is behind it.  So, wherever a list of headers is cut into
batches, the batches leave the tree that the whole list leaves, up to and with the first batch that
is not good. -/
theorem batch_boundaries (a : Admission) (t : HeaderTree) (now : Int64) (xs ys : List Header) :
    let first := a.run now xs (.start t)
    let second := a.run now ys (.start first.1.tree)
    let both := a.run now (xs ++ ys) (.start t)
    (first.2 = none →
        both.1.tree = second.1.tree
          ∧ both.1.total = first.1.total + second.1.total
          ∧ both.1.fresh = first.1.fresh + second.1.fresh
          ∧ both.2 = second.2
          ∧ both.1.last = if second.1.total = 0 then first.1.last else second.1.last)
      ∧ (∀ stop, first.2 = some stop →
        both = first ∧ ∀ peer, a.batch now t ⟨xs ++ ys, peer⟩ = a.batch now t ⟨xs, peer⟩)
      ∧ ∀ batches, (∀ report ∈ a.reports t (turnsAt now batches), AllValid report) →
        a.treeAfter t (turnsAt now batches)
            = (a.run now (batches.flatMap Batch.headers) (.start t)).1.tree
          ∧ ∀ b rest, ¬ AllValid (a.batch now (a.treeAfter t (turnsAt now batches)) b).2 →
            a.treeAfter t (turnsAt now (batches ++ [b]))
              = (a.run now ((batches ++ b :: rest).flatMap Batch.headers) (.start t)).1.tree := by
  intro first second both
  refine ⟨?_, ?_, ?_⟩
  · intro hgood
    have hboth : both = (first.1.join second.1, second.2) := run_two xs ys (Prod.ext rfl hgood)
    have hlast : second.1.last = none ↔ second.1.total = 0 :=
      run_last ys ⟨fun _ => rfl, fun _ => rfl⟩
    rw [hboth]
    refine ⟨rfl, rfl, rfl, rfl, ?_⟩
    show second.1.last.or first.1.last = _
    split
    · next hzero => rw [hlast.2 hzero, Option.none_or]
    · next hsome =>
      obtain ⟨last, heq⟩ := Option.ne_none_iff_exists'.1 fun hnone => hsome (hlast.1 hnone)
      rw [heq, Option.some_or]
  · intro stop hstop
    have hboth : both = first := run_append_of_stop xs ys hstop
    refine ⟨hboth, ?_⟩
    intro peer
    have hrun : a.run now (xs ++ ys) (.start t) = a.run now xs (.start t) := hboth
    simp only [batch, hrun]
  · intro batches hvalid
    obtain ⟨front, hrun, htree⟩ := run_flatten batches hvalid
    refine ⟨?_, ?_⟩
    · rw [hrun]
      exact htree.symm
    · intro b rest hbad
      rw [← htree] at hbad
      obtain ⟨stop, hstop⟩ := run_of_not_allValid hbad
      -- the last batch goes on in the tree of the others, and nothing behind it counts
      rw [turnsAt, List.map_append, List.map_singleton, treeAfter_concat, List.flatMap_append,
        List.flatMap_cons, run_two _ _ hrun, run_append_of_stop _ _ hstop]
      show (a.batch now (a.treeAfter t (turnsAt now batches)) b).1 = _
      rw [← htree, batch_fst]
      rfl

end HeaderPeer.Admission
