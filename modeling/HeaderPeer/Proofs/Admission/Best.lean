/-
  HeaderPeer.Proofs.Admission.Best — which header is best, whatever batches have come.

  The best header moves one header at a time, and only to a new leaf that stands higher than it.
  New leaves have larger numbers than all others.  So the best header is always the first that came
  of those that stand highest, in a tree of any shape, and it never goes down.  This does not depend
  on the rules: it holds of whatever they let in.

  Main statements:
    * `firstHighest_accept`, `climbs_accept` — what one header does to the best one.
    * `best_is_first_highest` — the best header of every tree that can be reached, and its way there.
-/
import HeaderPeer.Proofs.Admission.Checkpoints
import HeaderPeer.Proofs.HeaderTree.History

namespace HeaderPeer

namespace HeaderTree

theorem node?_best (t : HeaderTree) : t.node? t.best = some t.bestNode :=
  Array.getElem?_eq_getElem t.best_lt

theorem best_setBest {t : HeaderTree} {id : Nat} {n : TreeNode} (h : t.node? id = some n) :
    (t.setBest id).best = id := by
  have hlt : id < t.nodes.size := lt_size_of_node? h
  rw [setBest, dif_pos hlt]

/-- The best header stands highest, and came before all others that stand as high. -/
structure FirstHighest (t : HeaderTree) : Prop where
  highest : ∀ {id n}, t.node? id = some n → n.height ≤ t.bestNode.height
  first : ∀ {id n}, t.node? id = some n → n.height = t.bestNode.height → t.best ≤ id

/-- From `t` to `t'` the best header stayed or went up. -/
def Climbs (t t' : HeaderTree) : Prop :=
  (t'.best = t.best ∧ t'.bestNode = t.bestNode) ∨ t.bestNode.height < t'.bestNode.height

theorem Climbs.refl (t : HeaderTree) : Climbs t t := .inl ⟨rfl, rfl⟩

theorem Climbs.le {t t' : HeaderTree} (h : Climbs t t') :
    t.bestNode.height ≤ t'.bestNode.height := by
  rcases h with ⟨-, hsame⟩ | hup
  · exact Nat.le_of_eq (congrArg TreeNode.height hsame).symm
  · exact Nat.le_of_lt hup

theorem Climbs.trans {t t' t'' : HeaderTree} (h : Climbs t t') (h' : Climbs t' t'') :
    Climbs t t'' := by
  rcases h with ⟨hbest, hnode⟩ | hup
  · unfold Climbs at h' ⊢
    rw [hbest, hnode] at h'
    exact h'
  · exact .inr (Nat.lt_of_lt_of_le hup h'.le)

/-- A leaf that is added leaves the best header where it is. -/
theorem bestNode_push (t : HeaderTree) (parent : TreeNode) (header : Header) :
    (t.push parent header).tree.bestNode = t.bestNode := by
  have hplace := node?_push_of_some t.node?_best parent header
  have hbest := (t.push parent header).tree.node?_best
  exact Option.some.inj (hbest.symm.trans hplace)

end HeaderTree

namespace Admission

open HeaderTree (FirstHighest Climbs)

variable {a : Admission} {t : HeaderTree} {header : Header}

/-! ## §1. One header -/

/-- A new leaf becomes the best header if it stands higher, and otherwise nothing moves. -/
theorem highest_push (t : HeaderTree) (parent : TreeNode) (header : Header) :
    let grown := (t.push parent header).tree
    let leaf := t.childOf parent header
    (t.bestNode.height < leaf.height ∧ (highest grown leaf).best = t.size
        ∧ (highest grown leaf).bestNode = leaf)
      ∨ leaf.height ≤ t.bestNode.height ∧ highest grown leaf = grown := by
  intro grown leaf
  have hbest : grown.bestNode = t.bestNode := HeaderTree.bestNode_push t parent header
  have hleaf : grown.node? t.size = some leaf := by
    rw [HeaderTree.node?_push, if_pos rfl]
  unfold highest
  rw [hbest]
  by_cases hup : t.bestNode.height < leaf.height
  · rw [if_pos hup]
    exact .inl ⟨hup, HeaderTree.best_setBest hleaf, HeaderTree.bestNode_setBest hleaf⟩
  · rw [if_neg hup]
    exact .inr ⟨Nat.not_lt.1 hup, rfl⟩

section

variable (hselect : a.select = highest) {now : Int64} {i : HeaderTree.Insertion}
include hselect

/-- The best header stays or goes up. -/
theorem climbs_accept (h : a.accept now t header = .ok i) : Climbs t i.tree := by
  rcases accept_cases h with ⟨-, -, hsame⟩ | ⟨-, -, parent, -, hnode, htree, -⟩
  · rw [hsame]
    exact .refl t
  · rw [hselect, hnode] at htree
    rcases highest_push t parent header with ⟨hup, -, hbest⟩ | ⟨-, hstays⟩
    · right
      rw [htree, hbest]
      exact hup
    · left
      rw [htree, hstays]
      exact ⟨rfl, HeaderTree.bestNode_push t parent header⟩

/-- A leaf has a larger number than all nodes before it, so it is the first to stand as high as it
does if it stands higher than the best. -/
theorem firstHighest_accept (ht : FirstHighest t) (h : a.accept now t header = .ok i) :
    FirstHighest i.tree := by
  rcases accept_cases h with ⟨-, -, hsame⟩ | ⟨-, -, parent, -, hnode, htree, -⟩
  · rw [hsame]
    exact ht
  · rw [hselect, hnode] at htree
    let leaf := t.childOf parent header
    -- a node of the new tree is the leaf, or was there before
    have hplace : ∀ {id n}, i.tree.node? id = some n →
        id = t.size ∧ n = leaf ∨ t.node? id = some n := by
      intro id n hn
      have hnodes := (highest_keepsNodes (t.push parent header).tree leaf).1
      have hpush : (t.push parent header).tree.node? id = some n := by
        rw [HeaderTree.node?, ← hnodes, ← htree]
        exact hn
      rw [HeaderTree.node?_push] at hpush
      split at hpush
      · next hid =>
        cases hpush
        exact .inl ⟨hid, rfl⟩
      · exact .inr hpush
    rcases highest_push t parent header with ⟨hup, hbest, hbestNode⟩ | ⟨hlow, hstays⟩
    · -- the leaf is the best header now, and all others stand lower
      rw [← htree] at hbest hbestNode
      refine ⟨?_, ?_⟩
      · intro id n hn
        rw [hbestNode]
        rcases hplace hn with ⟨-, rfl⟩ | hold
        · exact Nat.le_refl _
        · exact Nat.le_of_lt (Nat.lt_of_le_of_lt (ht.highest hold) hup)
      · intro id n hn heq
        rw [hbestNode] at heq
        rcases hplace hn with ⟨rfl, -⟩ | hold
        · exact Nat.le_of_eq hbest
        · have hle := ht.highest hold
          exact absurd (heq ▸ hle) (Nat.not_le.2 hup)
    · -- the best header stays, and the leaf comes after it
      have hbest : i.tree.best = t.best := by
        rw [htree, hstays]
        rfl
      have hbestNode : i.tree.bestNode = t.bestNode := by
        rw [htree, hstays, HeaderTree.bestNode_push]
      refine ⟨?_, ?_⟩
      · intro id n hn
        rw [hbestNode]
        rcases hplace hn with ⟨-, rfl⟩ | hold
        · exact hlow
        · exact ht.highest hold
      · intro id n hn heq
        rw [hbestNode] at heq
        rw [hbest]
        rcases hplace hn with ⟨rfl, -⟩ | hold
        · exact Nat.le_of_lt t.best_lt
        · exact ht.first hold heq

end

/-! ## §2. All runs -/

theorem firstHighest_ofGenesis (genesis : Header) : FirstHighest (.ofGenesis genesis) := by
  refine ⟨?_, ?_⟩
  · intro id n hn
    have hid : id = 0 := Nat.lt_one_iff.1 (HeaderTree.lt_size_of_node? hn)
    subst hid
    cases hn
    exact Nat.le_refl 0
  · intro id n _ _
    exact Nat.zero_le id

/-- **The best header is the first that came of those that stand highest**, whatever the rules are
and whatever batches have come, finished or broken off; and on the way from one tree to a later one
the best header stays, or it goes to one that stands higher. -/
theorem best_is_first_highest (params : Params) (rules : List HeaderRule) {t : HeaderTree}
    (h : (Admission.mk params rules highest).Reachable t) :
    t.node? t.best = some t.bestNode
      ∧ (∀ id n, t.node? id = some n →
        n.height < t.bestNode.height ∨ n.height = t.bestNode.height ∧ t.best ≤ id)
      ∧ ∀ t', (Admission.mk params rules highest).Leads t t' →
        t.bestNode.height ≤ t'.bestNode.height
          ∧ (t'.best ≠ t.best → t.bestNode.height < t'.bestNode.height) := by
  have ht : FirstHighest t :=
    h.invariant (firstHighest_ofGenesis params.genesis) (firstHighest_accept rfl)
  refine ⟨t.node?_best, ?_, ?_⟩
  · intro id n hn
    rcases Nat.lt_or_eq_of_le (ht.highest hn) with hlow | heq
    · exact .inl hlow
    · exact .inr ⟨heq, ht.first hn heq⟩
  · intro t' h'
    have hclimbs : Climbs t t' := h'.invariant (.refl t) fun hsofar hnext =>
      hsofar.trans (climbs_accept rfl hnext)
    refine ⟨hclimbs.le, ?_⟩
    intro hmoved
    exact hclimbs.resolve_left fun hsame => hmoved hsame.1

/-- Admission without any rules. -/
def lenient : Admission := ⟨guarded, [], highest⟩

/-- Without rules a new header is taken in if the one that it names is known. -/
theorem accept_lenient (header : Header) {parent : TreeNode} (hnew : t.find? header.hash = none)
    (hparent : t.find? header.previous = some parent) :
    lenient.accept 0 t header
      = .ok ⟨t.childOf parent header, true,
          highest (t.push parent header).tree (t.childOf parent header)⟩ := by
  have hjudge : lenient.judge 0 t header = .pass .none := ite_self _
  simp only [accept, hjudge, place, HeaderTree.insert_of_new hnew hparent, HeaderTree.push_fresh,
    if_true]
  rfl

/-- Two headers above the first one. -/
def forkBatch : Batch := ⟨[bareHeader 1 2, bareHeader 1 3], ⟨0, ""⟩⟩

def forkTree : HeaderTree := (lenient.batch 0 (.ofGenesis guarded.genesis) forkBatch).1

theorem forkTree_nodes :
    forkTree.best = 1 ∧ forkTree.node? 2
      = some { id := 2, header := bareHeader 1 3, height := 1, parent := some 0 } := by
  let t := HeaderTree.ofGenesis guarded.genesis
  let t' := highest (t.push t.genesis (bareHeader 1 2)).tree (t.childOf t.genesis (bareHeader 1 2))
  have hwf : t.WellFormed guarded.genesis := HeaderTree.wellFormed_ofGenesis guarded.genesis
  have haccept := accept_lenient (bareHeader 1 2)
    (hwf.find?_eq_none_iff.2 (by decide : (2 : Word256) ∉ t.hashes)) hwf.find?_genesis
  have hwf' : t'.WellFormed guarded.genesis := wellFormed_accept highest_keepsNodes hwf haccept
  have haccept' := accept_lenient (bareHeader 1 3)
    (hwf'.find?_eq_none_iff.2 (by decide : (3 : Word256) ∉ t'.hashes)) hwf'.find?_genesis
  have hfirst : lenient.run 0 forkBatch.headers (.start t)
      = lenient.run 0 [bareHeader 1 3] ((Tally.start t).add (bareHeader 1 2)
          ⟨t.childOf t.genesis (bareHeader 1 2), true, t'⟩) := by
    rw [forkBatch, run]
    simp only [Tally.start]
    rw [haccept]
    rfl
  rw [forkTree, batch_fst, hfirst, run]
  simp only [Tally.add]
  rw [haccept']
  exact ⟨rfl, rfl⟩

/-- The second header of the fork stands as high as the first, which stays the best. -/
theorem forkTree_best :
    lenient.Reachable forkTree
      ∧ ∃ n, forkTree.node? 2 = some n ∧ forkTree.best = 1
        ∧ (n.height < forkTree.bestNode.height
          ∨ n.height = forkTree.bestNode.height ∧ forkTree.best ≤ 2) := by
  have hreach : lenient.Reachable forkTree := .batch 0 forkBatch .refl
  obtain ⟨hbest, hnode⟩ := forkTree_nodes
  exact ⟨hreach, _, hnode, hbest, (best_is_first_highest guarded [] hreach).2.1 2 _ hnode⟩

end Admission

end HeaderPeer
