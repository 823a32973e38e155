/-
  HeaderPeer.Proofs.HeaderTree.WellFormed — how the nodes of a tree of headers hang together.

  A tree is an array of nodes and an index from hashes to places in it.  Nothing in the types says
  that the two fit; `WellFormed` does, and growing the tree and moving its best header keep it so.

  Main statements:
    * `insert_cases` — what putting a header into a tree can do.
    * `wellFormed_insert` — a header that is put into a well-formed tree leaves a well-formed tree.
-/
import HeaderPeer.HeaderTree

namespace HeaderPeer.HeaderTree

/-! ## §1. Well-formed trees -/

/-- The tree grows from `genesis`: every other node has a parent that came before it and that its
header names, and the index finds every node by its hash. -/
structure WellFormed (genesis : Header) (t : HeaderTree) : Prop where
  id_eq : ∀ {id n}, t.node? id = some n → n.id = id
  root : t.node? 0 = some { id := 0, header := genesis, height := 0, parent := none }
  parent : ∀ {id n}, t.node? id = some n → id ≠ 0 →
    ∃ p, t.parent? n = some p ∧ p.id < id ∧ p.hash = n.header.previous ∧ n.height = p.height + 1
  index : ∀ {hash id}, t.index[hash]? = some id ↔ ∃ n, t.node? id = some n ∧ n.hash = hash

variable {genesis : Header} {t : HeaderTree}

namespace WellFormed

/-- A node is found by its hash. -/
theorem find?_of_node? (h : t.WellFormed genesis) {id : Nat} {n : TreeNode}
    (hn : t.node? id = some n) : t.find? n.hash = some n := by
  rw [find?, h.index.2 ⟨n, hn, rfl⟩]
  exact hn

/-- What is found stands in its place and has the hash that was looked for. -/
theorem of_find? (h : t.WellFormed genesis) {hash : Word256} {n : TreeNode}
    (hn : t.find? hash = some n) : t.node? n.id = some n ∧ n.hash = hash := by
  rw [find?, Option.bind_eq_some_iff] at hn
  obtain ⟨id, hid, hnode⟩ := hn
  obtain ⟨m, hm, hhash⟩ := h.index.1 hid
  rw [hm] at hnode
  cases hnode
  rw [h.id_eq hm]
  exact ⟨hm, hhash⟩

/-- No hash stands in two places. -/
theorem eq_of_hash_eq (h : t.WellFormed genesis) {i j : Nat} {n m : TreeNode}
    (hn : t.node? i = some n) (hm : t.node? j = some m) (heq : n.hash = m.hash) : n = m := by
  have hfound := h.find?_of_node? hn
  rw [heq, h.find?_of_node? hm] at hfound
  exact (Option.some.inj hfound).symm

theorem find?_genesis (h : t.WellFormed genesis) :
    t.find? genesis.hash = some { id := 0, header := genesis, height := 0, parent := none } :=
  h.find?_of_node? h.root

/-- A node above height zero is not the first one. -/
theorem ne_zero_of_pos (h : t.WellFormed genesis) {id : Nat} {n : TreeNode}
    (hn : t.node? id = some n) (hpos : 0 < n.height) : id ≠ 0 := by
  rintro rfl
  rw [h.root] at hn
  cases hn
  exact Nat.lt_irrefl 0 hpos

end WellFormed

theorem lt_size_of_node? {id : Nat} {n : TreeNode} (h : t.node? id = some n) : id < t.size := by
  rw [node?, Array.getElem?_eq_some_iff] at h
  exact h.1

theorem wellFormed_ofGenesis (genesis : Header) : (ofGenesis genesis).WellFormed genesis where
  id_eq := by
    intro id n h
    have hid : id = 0 := Nat.lt_one_iff.1 (lt_size_of_node? h)
    subst hid
    cases h
    rfl
  root := rfl
  parent := by
    intro id n h hne
    exact absurd (Nat.lt_one_iff.1 (lt_size_of_node? h)) hne
  index := by
    intro hash id
    show ((∅ : Std.HashMap Word256 Nat).insert genesis.hash 0)[hash]? = some id ↔ _
    rw [Std.HashMap.getElem?_insert, Std.HashMap.getElem?_empty]
    constructor
    · intro h
      split at h
      · next heq =>
        cases h
        exact ⟨_, rfl, beq_iff_eq.1 heq⟩
      · cases h
    · rintro ⟨n, hn, rfl⟩
      have hid : id = 0 := Nat.lt_one_iff.1 (lt_size_of_node? hn)
      subst hid
      cases hn
      exact if_pos (beq_iff_eq.2 rfl)

theorem find?_ofGenesis (genesis : Header) (hash : Word256) :
    (ofGenesis genesis).find? hash =
      if genesis.hash = hash then some { id := 0, header := genesis, height := 0, parent := none }
      else none := by
  show (((∅ : Std.HashMap Word256 Nat).insert genesis.hash 0)[hash]?).bind _ = _
  rw [Std.HashMap.getElem?_insert, Std.HashMap.getElem?_empty]
  by_cases heq : genesis.hash = hash
  · rw [if_pos (beq_iff_eq.2 heq), if_pos heq]
    rfl
  · rw [if_neg (fun h => heq (beq_iff_eq.1 h)), if_neg heq]
    rfl

/-! ## §2. Growth -/

/-- The node that a header becomes above `parent`. -/
def childOf (t : HeaderTree) (parent : TreeNode) (header : Header) : TreeNode :=
  { id := t.size, header, height := parent.height + 1, parent := some parent.id }

theorem push_fresh (t : HeaderTree) (parent : TreeNode) (header : Header) :
    (t.push parent header).fresh = true := rfl

theorem node?_push (t : HeaderTree) (parent : TreeNode) (header : Header) (id : Nat) :
    (t.push parent header).tree.node? id =
      if id = t.size then some (t.childOf parent header) else t.node? id :=
  Array.getElem?_push

/-- Nodes keep their places. -/
theorem node?_push_of_some {id : Nat} {n : TreeNode} (h : t.node? id = some n)
    (parent : TreeNode) (header : Header) :
    (t.push parent header).tree.node? id = some n := by
  have hlt := lt_size_of_node? h
  rw [node?_push, if_neg (by omega), h]

/-- **A leaf above a node of a well-formed tree leaves the tree well-formed**, if its hash is a new
one and it names that node. -/
theorem wellFormed_push (h : t.WellFormed genesis) {header : Header} {parent : TreeNode}
    (hnew : t.find? header.hash = none) (hparent : t.find? header.previous = some parent) :
    (t.push parent header).tree.WellFormed genesis := by
  obtain ⟨hplace, hprevious⟩ := h.of_find? hparent
  refine ⟨?_, ?_, ?_, ?_⟩
  · intro id n hn
    -- the node is the new one, or it was there before
    rw [node?_push] at hn
    split at hn
    · next hid =>
      cases hn
      exact hid.symm
    · exact h.id_eq hn
  · exact node?_push_of_some h.root parent header
  · intro id n hn hne
    rw [node?_push] at hn
    split at hn
    · next hid =>
      cases hn
      refine ⟨parent, node?_push_of_some hplace parent header, ?_, hprevious, rfl⟩
      rw [hid]
      exact lt_size_of_node? hplace
    · -- an old node keeps its parent, which keeps its place
      obtain ⟨p, hp, hlt, hhash, hheight⟩ := h.parent hn hne
      obtain ⟨pid, hpid, hpnode⟩ := Option.bind_eq_some_iff.1 hp
      refine ⟨p, ?_, hlt, hhash, hheight⟩
      rw [parent?, hpid]
      exact node?_push_of_some hpnode parent header
  · intro hash id
    show (t.index.insert header.hash t.size)[hash]? = some id ↔ _
    rw [Std.HashMap.getElem?_insert]
    constructor
    · intro hsome
      split at hsome
      · next heq =>
        cases hsome
        refine ⟨t.childOf parent header, ?_, beq_iff_eq.1 heq⟩
        rw [node?_push, if_pos rfl]
      · obtain ⟨n, hn, hhash⟩ := h.index.1 hsome
        exact ⟨n, node?_push_of_some hn parent header, hhash⟩
    · rintro ⟨n, hn, rfl⟩
      rw [node?_push] at hn
      split at hn
      · next hid =>
        cases hn
        rw [hid]
        exact if_pos (beq_iff_eq.2 rfl)
      · -- an old node cannot have the new hash, which was not found
        have hother : ¬ (header.hash == n.hash) = true := by
          intro heq
          rw [beq_iff_eq.1 heq, h.find?_of_node? hn] at hnew
          cases hnew
        rw [if_neg hother]
        exact h.index.2 ⟨n, hn, rfl⟩

/-- What putting a header into a tree can do: nothing, or add a leaf above the header it names. -/
theorem insert_cases {header : Header} {i : Insertion} (h : t.insert header = .ok i) :
    (t.find? header.hash = some i.node ∧ i.fresh = false ∧ i.tree = t) ∨
      (t.find? header.hash = none ∧
        ∃ parent, t.find? header.previous = some parent ∧ i = t.push parent header) := by
  unfold insert at h
  split at h
  · next node hfound =>
    cases h
    exact .inl ⟨hfound, rfl, rfl⟩
  · next hnew =>
    split at h
    · next parent hparent =>
      cases h
      exact .inr ⟨hnew, parent, hparent, rfl⟩
    · cases h

theorem wellFormed_insert (h : t.WellFormed genesis) {header : Header} {i : Insertion}
    (hi : t.insert header = .ok i) : i.tree.WellFormed genesis := by
  rcases insert_cases hi with ⟨-, -, hsame⟩ | ⟨hnew, parent, hparent, rfl⟩
  · rw [hsame]
    exact h
  · exact wellFormed_push h hnew hparent

/-! ## §3. The best header -/

@[simp] theorem nodes_setBest (t : HeaderTree) (id : Nat) : (t.setBest id).nodes = t.nodes := by
  unfold setBest
  split <;> rfl

@[simp] theorem index_setBest (t : HeaderTree) (id : Nat) : (t.setBest id).index = t.index := by
  unfold setBest
  split <;> rfl

/-- Which nodes there are and where they are found does not depend on which one is the best. -/
theorem WellFormed.of_eq {t' : HeaderTree} (h : t.WellFormed genesis) (hnodes : t'.nodes = t.nodes)
    (hindex : t'.index = t.index) : t'.WellFormed genesis := by
  have hnode : t'.node? = t.node? := by
    funext id
    rw [node?, hnodes, node?]
  have hparent : t'.parent? = t.parent? := by
    funext n
    rw [parent?, hnode, parent?]
  refine ⟨?_, ?_, ?_, ?_⟩
  · rw [hnode]
    exact h.id_eq
  · rw [hnode]
    exact h.root
  · rw [hnode, hparent]
    exact h.parent
  · rw [hnode, hindex]
    exact h.index

theorem wellFormed_setBest (h : t.WellFormed genesis) (id : Nat) :
    (t.setBest id).WellFormed genesis :=
  h.of_eq (nodes_setBest t id) (index_setBest t id)

end HeaderPeer.HeaderTree
