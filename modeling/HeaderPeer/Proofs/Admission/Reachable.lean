/-
  HeaderPeer.Proofs.Admission.Reachable — the trees that batches of headers lead to.

  All that happens to a tree happens one header at a time: a header is known already, or it becomes
  a leaf and the best header may move.  What one such step preserves holds of every tree that can be
  reached, however the headers are spread over batches and wherever a batch is broken off.

  Main statements:
    * `accept_cases` — what taking in one header can do.
    * `Leads.invariant` — an invariant of single headers is one of whole runs.
    * `reachable_wellFormed` — every tree that can be reached is well-formed.
-/
import HeaderPeer.Admission.Basic
import HeaderPeer.Proofs.HeaderTree.WellFormed

namespace HeaderPeer.Admission

/-! ## §1. Runs -/

/-- The trees that batches lead to from `start` on, each batch at some time. -/
inductive Leads (a : Admission) (start : HeaderTree) : HeaderTree → Prop where
  | refl : Leads a start start
  | batch {t : HeaderTree} (now : Int64) (b : Batch) (h : Leads a start t) :
    Leads a start (a.batch now t b).1

/-- The trees that batches lead to from the first header on. -/
def Reachable (a : Admission) (t : HeaderTree) : Prop := a.Leads (.ofGenesis a.params.genesis) t

/-- A batch leaves the tree that its run leaves. -/
theorem batch_fst (a : Admission) (now : Int64) (t : HeaderTree) (b : Batch) :
    (a.batch now t b).1 = (a.run now b.headers (.start t)).1.tree := by
  unfold batch
  split <;> next h => rw [h]

/-- What single headers preserve, a run preserves, also one that is broken off. -/
theorem run_preserves {a : Admission} {now : Int64} {P : HeaderTree → Prop}
    (hstep : ∀ {t header i}, P t → a.accept now t header = .ok i → P i.tree) :
    ∀ (headers : List Header) {tally : Tally}, P tally.tree →
      P (a.run now headers tally).1.tree := by
  intro headers
  induction headers with
  | nil =>
    intro tally h
    exact h
  | cons header rest ih =>
    intro tally h
    unfold run
    split
    · next i hi => exact ih (hstep h hi)
    · -- the run is broken off, and the tree stays as it is
      exact h

/-- **An invariant of single headers is an invariant of all runs.** -/
theorem Leads.invariant {a : Admission} {start t : HeaderTree} {P : HeaderTree → Prop}
    (h : a.Leads start t) (hstart : P start)
    (hstep : ∀ {now t header i}, P t → a.accept now t header = .ok i → P i.tree) : P t := by
  induction h with
  | refl => exact hstart
  | batch now b _ ih =>
    rw [batch_fst]
    exact run_preserves hstep b.headers ih

/-! ## §2. One header -/

variable {a : Admission}

/-- What taking in a header can do.  A header that is known is only judged.  A new one is the first
header of the network, or it passed the rules; it becomes a leaf, and the best header may move. -/
theorem accept_cases {now : Int64} {t : HeaderTree} {header : Header} {i : HeaderTree.Insertion}
    (h : a.accept now t header = .ok i) :
    (t.find? header.hash = some i.node ∧ i.fresh = false ∧ i.tree = t) ∨
      (t.find? header.hash = none ∧ i.fresh = true ∧
        ∃ parent, t.find? header.previous = some parent ∧ i.node = t.childOf parent header
          ∧ i.tree = a.select (t.push parent header).tree i.node
          ∧ (header.hash ≠ a.params.genesisHash →
              ∃ f, HeaderTrial.check ⟨header, t, a.params, now⟩ a.rules .none = .pass f)) := by
  unfold accept at h
  split at h
  · next f hjudge =>
    unfold place at h
    split at h
    · cases h
    · next j hj =>
      rcases HeaderTree.insert_cases hj with ⟨hfound, hfresh, htree⟩ | ⟨hnew, parent, hparent, rfl⟩
      · -- a node that is there already moves nothing
        rw [if_neg (by rw [hfresh]; exact Bool.false_ne_true)] at h
        cases h
        exact .inl ⟨hfound, hfresh, htree⟩
      · rw [if_pos (HeaderTree.push_fresh t parent header)] at h
        cases h
        refine .inr ⟨hnew, rfl, parent, hparent, rfl, rfl, fun hother => ⟨f, ?_⟩⟩
        rw [judge, if_neg hother] at hjudge
        exact hjudge
  · cases h
  · cases h

/-! ## §3. The best header -/

/-- The choice of the best header leaves the nodes and the index alone. -/
def KeepsNodes (select : HeaderTree → TreeNode → HeaderTree) : Prop :=
  ∀ t n, (select t n).nodes = t.nodes ∧ (select t n).index = t.index

theorem highest_keepsNodes : KeepsNodes highest := by
  intro t n
  unfold highest
  split
  · exact ⟨HeaderTree.nodes_setBest t n.id, HeaderTree.index_setBest t n.id⟩
  · exact ⟨rfl, rfl⟩

/-! ## §4. Well-formedness -/

theorem wellFormed_accept {genesis : Header} (hselect : KeepsNodes a.select) {now : Int64}
    {t : HeaderTree} {header : Header} {i : HeaderTree.Insertion} (ht : t.WellFormed genesis)
    (h : a.accept now t header = .ok i) : i.tree.WellFormed genesis := by
  rcases accept_cases h with ⟨-, -, hsame⟩ | ⟨hnew, -, parent, hparent, -, htree, -⟩
  · rw [hsame]
    exact ht
  · obtain ⟨hnodes, hindex⟩ := hselect (t.push parent header).tree i.node
    rw [htree]
    exact (HeaderTree.wellFormed_push ht hnew hparent).of_eq hnodes hindex

/-- **Every tree that can be reached is well-formed**, whatever the rules are. -/
theorem reachable_wellFormed (hselect : KeepsNodes a.select) {t : HeaderTree}
    (h : a.Reachable t) : t.WellFormed a.params.genesis :=
  h.invariant (HeaderTree.wellFormed_ofGenesis a.params.genesis) (wellFormed_accept hselect)

end HeaderPeer.Admission
