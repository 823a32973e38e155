/-
  HeaderPeer.Proofs.Admission.AnyOrder — the order of batches does not change what is stored.

  Peers bring their batches in an order that nobody controls.  Batches overlap, they fork, and what
  is new to one order is known already to another.  But good batches leave the headers that were
  there and all of their own, and a tree says nothing of a hash that its headers do not determine.
  Only the numbers of the nodes tell the order, and with them which of several equally high headers
  is the best one.

  Main statements:
    * `mem_headers_treeAfter` — which headers good batches leave.
    * `reports_of_linked` — batches that hang on what is known are good in every order.
    * `stored_of_headers` — trees that hold the same headers say the same.
    * `stored_of_perm` — two orders of good batches store the same.
-/
import HeaderPeer.Proofs.Admission.Best
import HeaderPeer.Proofs.Admission.Sequence
import HeaderPeer.Proofs.HeaderTree.Entry

namespace HeaderPeer

/-! ## §1. The best header of a larger tree -/

/-- The best header stands at least as high as that of a tree with no other headers. -/
theorem HeaderTree.FirstHighest.height_le {genesis : Header} {t t' : HeaderTree}
    (hbest : t'.FirstHighest) (h : t.WellFormed genesis) (h' : t'.WellFormed genesis)
    (hsub : ∀ header, header ∈ t.headers → header ∈ t'.headers) :
    t.bestNode.height ≤ t'.bestNode.height := by
  obtain ⟨n, hfound, hheader⟩ := h'.node_of_headers hsub t.node?_best
  have hn : t'.node? n.id = some n := (h'.of_find? hfound).1
  have hheight : n.height = t.bestNode.height := h.height_eq h' hsub t.best t.node?_best hn hheader
  rw [← hheight]
  exact hbest.highest hn

namespace Admission

variable {a : Admission} {params : Params} {now : Int64} {t : HeaderTree}

/-! ## §2. The headers of good batches -/

/-- Batches that are taken in one after the other while the clock stands still. -/
def turnsAt (now : Int64) (batches : List Batch) : List Turn := batches.map fun b => ⟨now, b⟩

/-- The hash tells headers apart. -/
def Unambiguous (headers : List Header) : Prop :=
  ∀ x ∈ headers, ∀ y ∈ headers, x.hash = y.hash → x = y

theorem headersOf_turnsAt (now : Int64) (batches : List Batch) :
    headersOf (turnsAt now batches) = batches.flatMap Batch.headers := by
  rw [headersOf, turnsAt, List.flatMap_map]

/-- **Good batches leave the headers that were there and all of their own**, if the hash tells them
apart.  Otherwise a header would be passed over that only shares its hash with one that is known. -/
theorem mem_headers_treeAfter (hselect : KeepsNodes a.select) (hwf : t.WellFormed a.params.genesis)
    {turns : List Turn} (hunique : Unambiguous (t.headers ++ headersOf turns))
    (hvalid : ∀ report ∈ a.reports t turns, AllValid report) {header : Header} :
    header ∈ (a.treeAfter t turns).headers ↔ header ∈ t.headers ++ headersOf turns := by
  rw [headers_treeAfter hselect turns hwf hvalid, List.mem_append]
  constructor
  · exact mem_of_mem_addNew
  · intro hmem
    have hhash : header.hash ∈ ((headersOf turns).foldl addNew t.headers).map Header.hash := by
      rw [mem_hashes_addNew]
      exact hmem.imp List.mem_map_of_mem List.mem_map_of_mem
    obtain ⟨kept, hkept, heq⟩ := List.mem_map.1 hhash
    have hsame : kept = header :=
      hunique kept (List.mem_append.2 (mem_of_mem_addNew hkept)) header (List.mem_append.2 hmem) heq
    rw [← hsame]
    exact hkept

/-! ## §3. Batches that are good in every order -/

/-- Each header names one that is known by then. -/
def Linked : (known : List Word256) → List Header → Prop
  | _, [] => True
  | known, header :: rest => header.previous ∈ known ∧ Linked (header.hash :: known) rest

/-- Nothing is wrong with the header itself, whatever is before it. -/
def SoundAlone (params : Params) (now : Int64) (header : Header) : Prop :=
  ∀ tree f, HeaderTrial.checkFields ⟨header, tree, params, now⟩ f = .pass f

/-- Where no checkpoint stands, a header is good if it is sound and names one that is known. -/
theorem good_of_known (hopen : params.checkpoints = .none) (hwf : t.WellFormed params.genesis)
    {header : Header} (hknown : header.previous ∈ t.hashes)
    (hsound : SoundAlone params now header) : (standard params).Good now t header := by
  obtain ⟨parent, hparent⟩ := hwf.mem_hashes_iff.1 hknown
  refine .inr ⟨⟨some parent, false⟩, ?_⟩
  show HeaderTrial.check ⟨header, t, params, now⟩ HeaderRule.standard .none = _
  rw [HeaderTrial.check_standard]
  simp only [hparent, HeaderTrial.checkAbove, hopen]
  exact hsound t _

/-- Headers that hang on what is known are all taken in, and nothing is forgotten. -/
theorem run_of_linked (hopen : params.checkpoints = .none) (headers : List Header) :
    ∀ (tally : Tally) {known : List Word256}, tally.tree.WellFormed params.genesis →
      known ⊆ tally.tree.hashes → Linked known headers →
      (∀ header ∈ headers, SoundAlone params now header) →
      ∃ tally', (standard params).run now headers tally = (tally', none)
        ∧ known ⊆ tally'.tree.hashes := by
  induction headers with
  | nil =>
    intro tally known _ hknown _ _
    exact ⟨tally, rfl, hknown⟩
  | cons header headers ih =>
    intro tally known hwf hknown hlinked hsound
    obtain ⟨hprevious, hlinked⟩ := hlinked
    obtain ⟨hsound, hsounds⟩ := List.forall_mem_cons.1 hsound
    obtain ⟨i, hi⟩ := accept_of_good hwf (good_of_known hopen hwf (hknown hprevious) hsound)
    have hheaders : i.tree.headers = addNew tally.tree.headers header :=
      (accept_effect highest_keepsNodes hwf hi).1
    -- the hashes that were known, and that of the header
    have hknown' : header.hash :: known ⊆ i.tree.hashes := by
      intro hash hmem
      rw [HeaderTree.hashes, hheaders]
      show hash ∈ ([header].foldl addNew tally.tree.headers).map Header.hash
      rw [mem_hashes_addNew]
      rcases List.mem_cons.1 hmem with rfl | hold
      · exact .inr (List.mem_singleton.2 rfl)
      · exact .inl (hknown hold)
    obtain ⟨tally', hrun, hkept⟩ := ih (tally.add header i)
      (wellFormed_accept highest_keepsNodes hwf hi) hknown' hlinked hsounds
    refine ⟨tally', ?_, ?_⟩
    · rw [run, hi]
      exact hrun
    · intro hash hmem
      exact hkept (List.mem_cons_of_mem header.hash hmem)

/-- **Batches that hang on what is known from the start are good, in whatever order they come.** -/
theorem reports_of_linked (hopen : params.checkpoints = .none) {known : List Word256}
    (batches : List Batch) :
    ∀ {t : HeaderTree}, t.WellFormed params.genesis → known ⊆ t.hashes →
      (∀ b ∈ batches, Linked known b.headers ∧ ∀ header ∈ b.headers, SoundAlone params now header) →
      ∀ report ∈ (standard params).reports t (turnsAt now batches), AllValid report := by
  induction batches with
  | nil =>
    intro t _ _ _ report hreport
    cases hreport
  | cons b batches ih =>
    intro t hwf hknown hbatches
    obtain ⟨⟨hlinked, hsound⟩, hrest⟩ := List.forall_mem_cons.1 hbatches
    obtain ⟨tally, hrun, hkept⟩ := run_of_linked hopen b.headers (.start t) hwf hknown hlinked hsound
    obtain ⟨htree, hreport⟩ := batch_of_run hrun
    have hwf' := wellFormed_batch (a := standard params) highest_keepsNodes now b hwf
    rw [← htree] at hkept
    show ∀ report ∈ _ :: (standard params).reports _ (turnsAt now batches), AllValid report
    refine List.forall_mem_cons.2 ⟨⟨_, _, _, _, hreport⟩, ?_⟩
    exact ih hwf' hkept hrest

/-! ## §4. Two orders -/

/-- Two trees that batches lead to say the same if they hold the same headers. -/
theorem stored_of_headers {left right : HeaderTree} (hleft : (standard params).Reachable left)
    (hright : (standard params).Reachable right)
    (hsame : ∀ header, header ∈ left.headers ↔ header ∈ right.headers) :
    (∀ hash, left.lookup hash = right.lookup hash)
      ∧ left.bestNode.height = right.bestNode.height := by
  have hwf : left.WellFormed params.genesis := reachable_wellFormed highest_keepsNodes hleft
  have hwf' : right.WellFormed params.genesis := reachable_wellFormed highest_keepsNodes hright
  have hbest : left.FirstHighest :=
    hleft.invariant (firstHighest_ofGenesis params.genesis) (firstHighest_accept rfl)
  have hbest' : right.FirstHighest :=
    hright.invariant (firstHighest_ofGenesis params.genesis) (firstHighest_accept rfl)
  refine ⟨hwf.lookup_eq_of_headers hwf' hsame, Nat.le_antisymm ?_ ?_⟩
  · exact hbest'.height_le hwf hwf' fun header => (hsame header).1
  · exact hbest.height_le hwf' hwf fun header => (hsame header).2

/-- **The order of good batches does not change what is stored.**  Two orders in which all batches
are good, from the same tree and at the same time, leave trees that say the same of every hash:
whether it is known, and its header, its height and its parent.  The best headers of both stand
equally high. -/
theorem stored_of_perm (params : Params) (h : (standard params).Reachable t) (now : Int64)
    {batches batches' : List Batch} (hperm : batches.Perm batches')
    (hunique : Unambiguous (t.headers ++ batches.flatMap Batch.headers))
    (hvalid : ∀ report ∈ (standard params).reports t (turnsAt now batches), AllValid report)
    (hvalid' : ∀ report ∈ (standard params).reports t (turnsAt now batches'), AllValid report) :
    let left := (standard params).treeAfter t (turnsAt now batches)
    let right := (standard params).treeAfter t (turnsAt now batches')
    (∀ hash, left.lookup hash = right.lookup hash)
      ∧ left.bestNode.height = right.bestNode.height := by
  intro left right
  have hbatches : ∀ header, header ∈ t.headers ++ batches.flatMap Batch.headers ↔
      header ∈ t.headers ++ batches'.flatMap Batch.headers := by
    intro header
    rw [List.mem_append, List.mem_append, (hperm.flatMap_right Batch.headers).mem_iff]
  have hunique' : Unambiguous (t.headers ++ batches'.flatMap Batch.headers) := by
    intro x hx y hy
    exact hunique x ((hbatches x).2 hx) y ((hbatches y).2 hy)
  -- both trees hold the headers that were there and those of all batches
  rw [← headersOf_turnsAt now] at hunique hunique'
  have hwf : t.WellFormed params.genesis := reachable_wellFormed highest_keepsNodes h
  have hsame : ∀ header, header ∈ left.headers ↔ header ∈ right.headers := by
    intro header
    rw [mem_headers_treeAfter highest_keepsNodes hwf hunique hvalid,
      mem_headers_treeAfter highest_keepsNodes hwf hunique' hvalid', headersOf_turnsAt,
      headersOf_turnsAt, hbatches]
  exact stored_of_headers (leads_treeAfter h (turnsAt now batches))
    (leads_treeAfter h (turnsAt now batches')) hsame

/-- Parameters without checkpoints. -/
def unguarded : Params := { Params.regtest with genesis := bareHeader 0 1 }

/-- Nothing is wrong with a header that has a small hash. -/
theorem soundAlone_bareHeader {previous hash : Word256} (h : hash ≤ 0x7fffff) :
    SoundAlone unguarded 0 (bareHeader previous hash) := by
  intro tree f
  rw [HeaderTrial.checkFields_eq_pass_iff]
  have hbits : Compact.target? 0x207fffff = some (0x7fffff#256 <<< 232) := by decide
  have hversion : unguarded.minHeaderVersion ≤ 1 := by decide
  have htime : Int64.ofNat 0 ≤ 0 + unguarded.maxFutureTime := by decide
  have hlimit : 0x7fffff#256 <<< 232 ≤ unguarded.powLimit := by decide
  have hsmall : (0x7fffff : Word256) ≤ 0x7fffff#256 <<< 232 := by decide
  exact ⟨rfl, hversion, htime, _, hbits, hlimit, BitVec.le_trans h hsmall⟩

/-- Two batches that share their first header and part above it. -/
def forkedBatches : List Batch :=
  [⟨[bareHeader 1 2, bareHeader 2 3], ⟨0, "left"⟩⟩, ⟨[bareHeader 1 2, bareHeader 2 4], ⟨1, "right"⟩⟩]

theorem linked_forkedBatches :
    ∀ b ∈ forkedBatches, Linked [1] b.headers
      ∧ ∀ header ∈ b.headers, SoundAlone unguarded 0 header := by
  have hsound : ∀ header ∈ forkedBatches.flatMap Batch.headers, SoundAlone unguarded 0 header := by
    intro header hheader
    simp only [forkedBatches, List.flatMap_cons, List.flatMap_nil, List.cons_append, List.nil_append,
      List.append_nil, List.mem_cons, List.not_mem_nil, or_false] at hheader
    rcases hheader with rfl | rfl | rfl | rfl <;> exact soundAlone_bareHeader (by decide)
  intro b hb
  refine ⟨?_, fun header hheader => hsound header (List.mem_flatMap.2 ⟨b, hb, hheader⟩)⟩
  simp only [forkedBatches, List.mem_cons, List.not_mem_nil, or_false] at hb
  rcases hb with rfl | rfl
  · exact ⟨by decide, by decide, trivial⟩
  · exact ⟨by decide, by decide, trivial⟩

/-- Either of them may come first: both orders store the same. -/
theorem forkedBatches_stored :
    let start := HeaderTree.ofGenesis unguarded.genesis
    let left := (standard unguarded).treeAfter start (turnsAt 0 forkedBatches)
    let right := (standard unguarded).treeAfter start (turnsAt 0 forkedBatches.reverse)
    (∀ hash, left.lookup hash = right.lookup hash)
      ∧ left.bestNode.height = right.bestNode.height := by
  have hwf := HeaderTree.wellFormed_ofGenesis unguarded.genesis
  have hknown : [1] ⊆ (HeaderTree.ofGenesis unguarded.genesis).hashes := List.Subset.refl [1]
  refine stored_of_perm unguarded .refl 0 (List.reverse_perm forkedBatches).symm ?_ ?_ ?_
  · unfold Unambiguous
    decide
  · exact reports_of_linked rfl forkedBatches hwf hknown linked_forkedBatches
  · refine reports_of_linked rfl forkedBatches.reverse hwf hknown ?_
    intro b hb
    exact linked_forkedBatches b (List.mem_reverse.1 hb)

end Admission

end HeaderPeer
