/-
  HeaderPeer.Proofs.Admission.Sequence — batches that are taken in one after the other.

  Each batch has its turn at some time of the clock, in the tree that the batches before it left.
  This is what any way of feeding the worker comes down to, and what it is compared with.

  Main statements:
    * `treeAfter_concat`, `reports_concat` — one more turn.
    * `leads_treeAfter` — the trees that turns lead to.
    * `headers_treeAfter` — the headers of that tree, if all batches were good.
-/
import HeaderPeer.Proofs.Admission.Outcome

namespace HeaderPeer.Admission

/-! ## §1. Turns -/

/-- A batch and the time at which it is taken in. -/
structure Turn where
  now : Int64
  batch : Batch
  deriving DecidableEq, Repr

/-- The tree that batches leave. -/
def treeAfter (a : Admission) (t : HeaderTree) (turns : List Turn) : HeaderTree :=
  turns.foldl (fun t turn => (a.batch turn.now t turn.batch).1) t

/-- The reports on batches, in their order. -/
def reports (a : Admission) : HeaderTree → List Turn → List (Except Failure Event)
  | _, [] => []
  | t, turn :: rest =>
    (a.batch turn.now t turn.batch).2 :: a.reports (a.batch turn.now t turn.batch).1 rest

section

variable (a : Admission) (t : HeaderTree)

theorem treeAfter_cons (turn : Turn) (rest : List Turn) :
    a.treeAfter t (turn :: rest) = a.treeAfter (a.batch turn.now t turn.batch).1 rest := rfl

theorem treeAfter_concat (turns : List Turn) (turn : Turn) :
    a.treeAfter t (turns ++ [turn])
      = (a.batch turn.now (a.treeAfter t turns) turn.batch).1 := by
  rw [treeAfter, List.foldl_append]
  rfl

theorem reports_concat (turns : List Turn) (turn : Turn) :
    a.reports t (turns ++ [turn])
      = a.reports t turns ++ [(a.batch turn.now (a.treeAfter t turns) turn.batch).2] := by
  induction turns generalizing t with
  | nil => rfl
  | cons first turns ih =>
    show _ :: a.reports _ (turns ++ [turn]) = _ :: (a.reports _ turns ++ _)
    rw [ih]
    rfl

end

variable {a : Admission} {start t : HeaderTree}

theorem leads_treeAfter (h : a.Leads start t) (turns : List Turn) :
    a.Leads start (a.treeAfter t turns) := by
  induction turns generalizing t with
  | nil => exact h
  | cons turn turns ih => exact ih (.batch turn.now turn.batch h)

/-- A batch leaves the tree well-formed. -/
theorem wellFormed_batch {genesis : Header} (hselect : KeepsNodes a.select) (now : Int64)
    (b : Batch) (hwf : t.WellFormed genesis) : (a.batch now t b).1.WellFormed genesis := by
  rw [batch_fst]
  exact run_preserves (wellFormed_accept hselect) b.headers hwf

/-! ## §2. Good batches -/

/-- The report on a batch all of whose headers were good. -/
def AllValid (report : Except Failure Event) : Prop :=
  ∃ total fresh last peer, report = .ok (.accepted total fresh last peer)

theorem run_of_allValid {now : Int64} {b : Batch} (h : AllValid (a.batch now t b).2) :
    ∃ tally, a.run now b.headers (.start t) = (tally, none) := by
  obtain ⟨total, fresh, last, peer, hreport⟩ := h
  unfold batch at hreport
  split at hreport
  · next tally hrun => exact ⟨tally, hrun⟩
  · cases hreport
  · cases hreport

/-- A run that does not stop takes in all headers. -/
theorem headers_of_run (hselect : KeepsNodes a.select) {now : Int64} (headers : List Header) :
    ∀ (tally : Tally) {tally' : Tally}, tally.tree.WellFormed a.params.genesis →
      a.run now headers tally = (tally', none) →
      tally'.tree.headers = headers.foldl addNew tally.tree.headers := by
  induction headers with
  | nil =>
    intro _ _ _ hrun
    cases hrun
    rfl
  | cons header headers ih =>
    intro tally tally' hwf hrun
    unfold run at hrun
    split at hrun
    · next i hi =>
      rw [List.foldl_cons, ← (accept_effect hselect hwf hi).1]
      exact ih (tally.add header i) (wellFormed_accept hselect hwf hi) hrun
    · cases hrun

/-- All headers of batches, in the order in which they come. -/
def headersOf (turns : List Turn) : List Header := turns.flatMap fun turn => turn.batch.headers

/-- **Good batches leave the headers that were there and their own.** -/
theorem headers_treeAfter (hselect : KeepsNodes a.select) (turns : List Turn) :
    ∀ {t : HeaderTree}, t.WellFormed a.params.genesis →
      (∀ report ∈ a.reports t turns, AllValid report) →
      (a.treeAfter t turns).headers = (headersOf turns).foldl addNew t.headers := by
  induction turns with
  | nil =>
    intro t _ _
    rfl
  | cons turn turns ih =>
    intro t hwf hvalid
    obtain ⟨hfirst, hrest⟩ := List.forall_mem_cons.1 hvalid
    obtain ⟨tally, hrun⟩ := run_of_allValid hfirst
    have htree : (a.batch turn.now t turn.batch).1 = tally.tree := (batch_of_run hrun).1
    have hheaders : tally.tree.headers = turn.batch.headers.foldl addNew t.headers :=
      headers_of_run hselect turn.batch.headers (.start t) hwf hrun
    have hwf' := wellFormed_batch hselect turn.now turn.batch hwf
    rw [treeAfter_cons, ih hwf' hrest, htree, hheaders, headersOf, headersOf, List.flatMap_cons,
      List.foldl_append]

/-! ## §3. What is kept of headers that are taken in -/

theorem mem_of_mem_addNew {stored headers : List Header} {header : Header}
    (h : header ∈ headers.foldl addNew stored) : header ∈ stored ∨ header ∈ headers := by
  induction headers generalizing stored with
  | nil => exact .inl h
  | cons first headers ih =>
    rcases ih h with hstored | hlater
    · unfold addNew at hstored
      split at hstored
      · exact .inl hstored
      · rcases List.mem_append.1 hstored with hold | hnew
        · exact .inl hold
        · exact .inr (List.mem_cons.2 (.inl (List.mem_singleton.1 hnew)))
    · exact .inr (List.mem_cons_of_mem first hlater)

/-- No hash is lost. -/
theorem mem_hashes_addNew {stored headers : List Header} {hash : Word256} :
    hash ∈ (headers.foldl addNew stored).map Header.hash ↔
      hash ∈ stored.map Header.hash ∨ hash ∈ headers.map Header.hash := by
  induction headers generalizing stored with
  | nil => simp
  | cons first headers ih =>
    rw [List.foldl_cons, ih, List.map_cons, List.mem_cons]
    unfold addNew
    split
    · next hknown =>
      have hmem := List.contains_iff_mem.1 hknown
      constructor
      · rintro (h | h)
        · exact .inl h
        · exact .inr (.inr h)
      · rintro (h | rfl | h)
        · exact .inl h
        · exact .inl hmem
        · exact .inr h
    · rw [List.map_append, List.mem_append, List.map_singleton, List.mem_singleton, or_assoc]

end HeaderPeer.Admission
