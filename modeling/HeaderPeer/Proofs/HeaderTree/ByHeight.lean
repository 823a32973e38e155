/-
  HeaderPeer.Proofs.HeaderTree.ByHeight — the ancestor of a node at a height.

  The walk down compares heights and follows parents.  It would give up at a node without a parent,
  and it would fail at a parent that is not there; here it is told by rules that keep these apart
  and that put no bound on its length.  In a tree that grew from its first header neither happens:
  every node above height zero has a parent, one step lower.  So on the way of a node there is one
  node at each height up to its own, and the walk ends there.

  Main statements:
    * `WellFormed.falls_back` — the walk ends at the node that stands at the height asked for.
    * `lookup_iff` — every look-up ends, with the answer of `ancestor?`.
    * `ancestors_exact` — what the ancestors of a node are, whatever happened to its tree.
-/
import HeaderPeer.Proofs.HeaderTree.History
import HeaderPeer.Proofs.HeaderTree.Path

namespace HeaderPeer.HeaderTree

variable {genesis : Header} {t : HeaderTree} {n : TreeNode}

/-! ## §1. The walk -/

/-- The walk from a node down to a height, and what it finds.  A parent that is named must be
there. -/
inductive Falls (t : HeaderTree) (height : Nat) : (n : TreeNode) → (found : Option TreeNode) → Prop
  | there {n : TreeNode} (hlow : n.height ≤ height) : Falls t height n (some n)
  | down {n p : TreeNode} {id : Nat} {found : Option TreeNode} (hhigh : height < n.height)
      (hparent : n.parent = some id) (hnode : t.node? id = some p)
      (rest : Falls t height p found) : Falls t height n found
  | lost {n : TreeNode} (hhigh : height < n.height) (hparent : n.parent = none) :
      Falls t height n none

/-- The look-up of an ancestor by its height. -/
inductive Lookup (t : HeaderTree) (n : TreeNode) (height : Nat) : (found : Option TreeNode) → Prop
  | above (habove : n.height < height) : Lookup t n height none
  | below {found : Option TreeNode} (hbelow : height ≤ n.height) (hwalk : Falls t height n found) :
      Lookup t n height found

theorem Falls.unique {height : Nat} {found found' : Option TreeNode} (h : Falls t height n found)
    (h' : Falls t height n found') : found = found' := by
  induction h with
  | there hlow =>
    cases h' with
    | there => rfl
    | down hhigh => omega
    | lost => omega
  | down hhigh hparent hnode rest ih =>
    cases h' with
    | there hlow => omega
    | down _ hparent' hnode' rest' =>
      cases hparent.symm.trans hparent'
      cases hnode.symm.trans hnode'
      exact ih rest'
    | lost _ hparent' => cases hparent.symm.trans hparent'
  | lost hhigh hparent =>
    cases h' with
    | there hlow => omega
    | down _ hparent' => cases hparent.symm.trans hparent'
    | lost => rfl

theorem Lookup.unique {height : Nat} {found found' : Option TreeNode} (h : Lookup t n height found)
    (h' : Lookup t n height found') : found = found' := by
  cases h with
  | above habove =>
    cases h' with
    | above => rfl
    | below hbelow => omega
  | below hbelow hwalk =>
    cases h' with
    | above habove => omega
    | below _ hwalk' => exact hwalk.unique hwalk'

/-! ## §2. Trees that grew from their first header -/

/-- **The walk ends at the node that stands at the height asked for.**  The induction is on the steps
that are left; each goes to a parent, which is there. -/
theorem WellFormed.falls_back (h : t.WellFormed genesis) {height steps : Nat}
    (hn : t.node? n.id = some n) (hheight : height + steps = n.height) :
    Falls t height n (t.back steps n) := by
  induction steps generalizing n with
  | zero => exact .there (by omega)
  | succ steps ih =>
    obtain ⟨p, hp, hpnode, -, hstep⟩ := h.parent_of_pos hn (by omega)
    obtain ⟨id, hparent, hnode⟩ := Option.bind_eq_some_iff.1 hp
    rw [back_succ_of_parent hp]
    exact .down (by omega) hparent hnode (ih hpnode (by omega))

theorem WellFormed.ancestor?_of_le (h : t.WellFormed genesis) {height : Nat}
    (hn : t.node? n.id = some n) (hheight : height ≤ n.height) :
    t.ancestor? n height = t.back (n.height - height) n :=
  h.ancestor?_eq_back hn (by omega)

theorem ancestor?_of_above {height : Nat} (habove : n.height < height) :
    t.ancestor? n height = none := by
  rw [ancestor?, if_pos habove]

/-- **Every look-up ends**, follows only parents that are there, and has one answer. -/
theorem WellFormed.lookup_iff (h : t.WellFormed genesis) {height : Nat} {found : Option TreeNode}
    (hn : t.node? n.id = some n) : Lookup t n height found ↔ found = t.ancestor? n height := by
  have hrun : Lookup t n height (t.ancestor? n height) := by
    by_cases hheight : height ≤ n.height
    · rw [h.ancestor?_of_le hn hheight]
      exact .below hheight (h.falls_back hn (by omega))
    · rw [ancestor?_of_above (by omega)]
      exact .above (by omega)
  constructor
  · intro hfound
    exact hfound.unique hrun
  · rintro rfl
    exact hrun

/-- The ancestor at a height up to the node's own is there, and stands at that height. -/
theorem WellFormed.exists_ancestor (h : t.WellFormed genesis) {height : Nat}
    (hn : t.node? n.id = some n) (hheight : height ≤ n.height) :
    ∃ m, t.ancestor? n height = some m ∧ t.back (n.height - height) n = some m
      ∧ t.node? m.id = some m ∧ m.height = height := by
  obtain ⟨m, hback, hm, hlow⟩ := h.exists_back hn (Nat.sub_le n.height height)
  refine ⟨m, ?_, hback, hm, by omega⟩
  rw [h.ancestor?_of_le hn hheight, hback]

theorem WellFormed.ancestor?_eq_none_iff (h : t.WellFormed genesis) {height : Nat}
    (hn : t.node? n.id = some n) : t.ancestor? n height = none ↔ n.height < height := by
  constructor
  · intro hnone
    by_contra hheight
    obtain ⟨m, hm, -⟩ := h.exists_ancestor hn (Nat.le_of_not_lt hheight)
    rw [hnone] at hm
    cases hm
  · exact ancestor?_of_above

/-- There are no more steps on the way down than the node is high. -/
theorem WellFormed.steps_le (h : t.WellFormed genesis) {steps : Nat} {m : TreeNode}
    (hn : t.node? n.id = some n) (hback : t.back steps n = some m) : steps ≤ n.height := by
  by_contra hmany
  -- all the way down stands the first node, which has no parent
  obtain ⟨root, hall, hroot, hzero⟩ := h.exists_back hn (Nat.le_refl n.height)
  obtain ⟨more, rfl⟩ : ∃ more, steps = n.height + (more + 1) := ⟨steps - n.height - 1, by omega⟩
  rw [back_add hall, h.eq_root_of_height hroot (by omega)] at hback
  cases hback

/-- **On the way of a node there is one node at each height.** -/
theorem WellFormed.eq_of_height (h : t.WellFormed genesis) {steps : Nat} {m : TreeNode}
    (hn : t.node? n.id = some n) (hback : t.back steps n = some m) :
    t.ancestor? n m.height = some m ∧ steps = n.height - m.height := by
  obtain ⟨m', hback', -, hheight⟩ := h.exists_back hn (h.steps_le hn hback)
  cases hback.symm.trans hback'
  refine ⟨?_, by omega⟩
  rw [h.ancestor?_eq_back hn hheight, hback]

/-- An ancestor's ancestors are the node's own. -/
theorem WellFormed.ancestor?_ancestor? (h : t.WellFormed genesis) {low high : Nat}
    (hn : t.node? n.id = some n) (hlow : low ≤ high) (hhigh : high ≤ n.height) :
    (t.ancestor? n high).bind (fun m => t.ancestor? m low) = t.ancestor? n low := by
  obtain ⟨m, hfound, hback, hm, hheight⟩ := h.exists_ancestor hn hhigh
  have hsteps : n.height - low = n.height - high + (m.height - low) := by omega
  calc (t.ancestor? n high).bind (fun m => t.ancestor? m low)
      = t.ancestor? m low := by rw [hfound, Option.bind_some]
    _ = t.back (m.height - low) m := h.ancestor?_of_le hm (by omega)
    _ = t.back (n.height - low) n := by rw [hsteps, back_add hback]
    _ = t.ancestor? n low := (h.ancestor?_of_le hn (Nat.le_trans hlow hhigh)).symm

theorem WellFormed.ancestor?_zero (h : t.WellFormed genesis) (hn : t.node? n.id = some n) :
    t.ancestor? n 0 = some { id := 0, header := genesis, height := 0, parent := none } := by
  obtain ⟨m, hfound, -, hm, hzero⟩ := h.exists_ancestor hn (Nat.zero_le n.height)
  rw [hfound, h.eq_root_of_height hm hzero]

/-! ## §3. The ancestors of a node -/

/-- What the look-up of ancestors says of a node. -/
structure ExactAncestors (genesis : Header) (t : HeaderTree) (n : TreeNode) : Prop where
  /-- It ends, and every parent that it follows is there. -/
  ends : ∀ {height found}, Lookup t n height found ↔ found = t.ancestor? n height
  none_iff : ∀ {height}, t.ancestor? n height = none ↔ n.height < height
  /-- It finds the node that so many steps lead to. -/
  found : ∀ {height}, height ≤ n.height →
    ∃ m, t.ancestor? n height = some m ∧ t.back (n.height - height) n = some m
      ∧ t.node? m.id = some m ∧ m.height = height
  /-- No other node on the way stands at the height. -/
  only : ∀ {steps m}, t.back steps n = some m →
    t.ancestor? n m.height = some m ∧ steps = n.height - m.height
  through : ∀ {low high}, low ≤ high → high ≤ n.height →
    (t.ancestor? n high).bind (fun m => t.ancestor? m low) = t.ancestor? n low
  first : t.ancestor? n 0 = some t.genesis ∧ t.genesis.header = genesis

theorem WellFormed.genesis_eq (h : t.WellFormed genesis) :
    t.genesis = { id := 0, header := genesis, height := 0, parent := none } := by
  obtain ⟨_, hroot⟩ := Array.getElem?_eq_some_iff.1 h.root
  exact hroot

/-- **Whatever happened to a tree, the ancestors of its nodes are exact**: the look-up ends, finds
nothing exactly above the node, and else the one node at that height on the way to the first. -/
theorem ancestors_exact (genesis : Header) (changes : List Change) {id : Nat} {n : TreeNode}
    (hn : ((ofGenesis genesis).after changes).node? id = some n) :
    ExactAncestors genesis ((ofGenesis genesis).after changes) n := by
  have h := wellFormed_after (wellFormed_ofGenesis genesis) changes
  rw [← h.id_eq hn] at hn
  refine {
    ends := h.lookup_iff hn
    none_iff := h.ancestor?_eq_none_iff hn
    found := h.exists_ancestor hn
    only := h.eq_of_height hn
    through := h.ancestor?_ancestor? hn
    first := ?_ }
  rw [h.genesis_eq]
  exact ⟨h.ancestor?_zero hn, rfl⟩

/-- A new header above a node of the tree becomes a leaf. -/
theorem WellFormed.apply_insert_above (h : t.WellFormed genesis) {header : Header}
    (hnew : header.hash ∉ t.hashes) (hn : t.node? n.id = some n) (habove : n.hash = header.previous) :
    t.apply (.insert header) = (t.push n header).tree := by
  have hparent : t.find? header.previous = some n := habove ▸ h.find?_of_node? hn
  simp only [apply, insert_of_new (h.find?_eq_none_iff.2 hnew) hparent]

/-- A header that names `previous` and carries `hash`. -/
def link (previous hash : Word256) : Header :=
  { version := 1, previous, merkleRoot := 0, time := 0, bits := 0x207fffff, nonce := 0
    txCount := 0, hash }

/-- Two branches from the first header, of which the lower one is the best. -/
def branches : List Change :=
  [.insert (link 1 2), .insert (link 1 3), .insert (link 3 4), .setBest 1]

def branchedTree : HeaderTree := (ofGenesis (link 0 1)).after branches

/-- The leaf of the higher branch. -/
def highLeaf : TreeNode := { id := 3, header := link 3 4, height := 2, parent := some 2 }

theorem branchedTree_nodes :
    branchedTree.node? 3 = some highLeaf
      ∧ branchedTree.node? 2 = some { id := 2, header := link 1 3, height := 1, parent := some 0 } := by
  let t₀ := ofGenesis (link 0 1)
  let t₁ := (t₀.push t₀.genesis (link 1 2)).tree
  let t₂ := (t₁.push t₁.genesis (link 1 3)).tree
  let t₃ := (t₂.push { id := 2, header := link 1 3, height := 1, parent := some 0 } (link 3 4)).tree
  have h₀ : t₀.WellFormed (link 0 1) := wellFormed_ofGenesis _
  have h₁ : t₀.apply (.insert (link 1 2)) = t₁ :=
    h₀.apply_insert_above (by decide : (2 : Word256) ∉ t₀.hashes) rfl rfl
  have hwf₁ : t₁.WellFormed (link 0 1) := h₁ ▸ wellFormed_apply h₀ _
  have h₂ : t₁.apply (.insert (link 1 3)) = t₂ :=
    hwf₁.apply_insert_above (by decide : (3 : Word256) ∉ t₁.hashes) rfl rfl
  have hwf₂ : t₂.WellFormed (link 0 1) := h₂ ▸ wellFormed_apply hwf₁ _
  have h₃ : t₂.apply (.insert (link 3 4)) = t₃ :=
    hwf₂.apply_insert_above (by decide : (4 : Word256) ∉ t₂.hashes) rfl rfl
  have htree : branchedTree = t₃.setBest 1 := by
    rw [branchedTree, branches, after, List.foldl_cons, h₁, List.foldl_cons, h₂, List.foldl_cons, h₃]
    rfl
  have hnodes : branchedTree.nodes = t₃.nodes := by rw [htree, nodes_setBest]
  rw [node?, node?, hnodes]
  exact ⟨rfl, rfl⟩

/-- The ancestor of the leaf is on its own branch. -/
theorem highLeaf_ancestors :
    branchedTree.node? 3 = some highLeaf
      ∧ branchedTree.ancestor? highLeaf 1
          = some { id := 2, header := link 1 3, height := 1, parent := some 0 }
      ∧ branchedTree.ancestor? highLeaf 3 = none
      ∧ branchedTree.ancestor? highLeaf 0 = some branchedTree.genesis := by
  obtain ⟨hleaf, hparent⟩ := branchedTree_nodes
  have hexact := ancestors_exact (link 0 1) branches hleaf
  have hback : branchedTree.back 1 highLeaf
      = some { id := 2, header := link 1 3, height := 1, parent := some 0 } :=
    back_succ_of_parent (show branchedTree.parent? highLeaf = _ from hparent) 0
  exact ⟨hleaf, (hexact.only hback).1, hexact.none_iff.2 (by decide), hexact.first.1⟩

end HeaderPeer.HeaderTree
