/-
  HeaderPeer.Proofs.HeaderTree.Entry — what a tree says of a hash, numbers apart.

  The numbers of nodes tell in which order headers came.  All else that a tree says of a hash, its
  header, the height of that and the hash of the header before it (`lookup`), does not depend on the
  order: it depends only on which headers the tree holds.  A header names the one before it, and
  there is one node for each hash, so the way down to the first header is the same in every tree
  that holds the same headers.

  Main statement: `lookup_eq_of_headers`.
-/
import HeaderPeer.Proofs.HeaderTree.History

namespace HeaderPeer.HeaderTree

/-! ## §1. Entries -/

/-- What is known of a header in a tree, whatever the numbers of the nodes. -/
structure Entry where
  header : Header
  height : Nat
  /-- The hash of the node before this one; the first has none. -/
  parent : Option Word256
  deriving DecidableEq, Repr

/-- What a tree knows of a hash. -/
def lookup (t : HeaderTree) (hash : Word256) : Option Entry :=
  (t.find? hash).map fun n =>
    { header := n.header, height := n.height, parent := (t.parent? n).map TreeNode.hash }

/-! ## §2. Nodes and headers -/

section

variable {genesis : Header} {t t' : HeaderTree}

/-- A tree holds the headers of its nodes. -/
theorem mem_headers_iff (t : HeaderTree) {header : Header} :
    header ∈ t.headers ↔ ∃ id n, t.node? id = some n ∧ n.header = header := by
  rw [List.mem_iff_getElem?]
  simp only [headers_getElem?, Option.map_eq_some_iff]

theorem WellFormed.eq_root (h : t.WellFormed genesis) {id : Nat} {n : TreeNode}
    (hn : t.node? id = some n) (hhash : n.hash = genesis.hash) :
    n = { id := 0, header := genesis, height := 0, parent := none } :=
  h.eq_of_hash_eq hn h.root hhash

/-- The first node has no parent, and every other one has the parent that its header names. -/
theorem WellFormed.parent_hash (h : t.WellFormed genesis) {id : Nat} {n : TreeNode}
    (hn : t.node? id = some n) :
    (t.parent? n).map TreeNode.hash
      = if n.header.hash = genesis.hash then none else some n.header.previous := by
  by_cases hhash : n.header.hash = genesis.hash
  · rw [if_pos hhash, h.eq_root hn hhash]
    rfl
  · have hid : id ≠ 0 := by
      rintro rfl
      rw [h.root] at hn
      cases hn
      exact hhash rfl
    obtain ⟨p, hp, -, hprevious, -⟩ := h.parent hn hid
    rw [if_neg hhash, hp, Option.map_some, hprevious]

/-- Of two trees that hold the same headers, a header is found in both. -/
theorem WellFormed.node_of_headers (h' : t'.WellFormed genesis)
    (hsame : ∀ header, header ∈ t.headers → header ∈ t'.headers) {id : Nat} {n : TreeNode}
    (hn : t.node? id = some n) : ∃ n', t'.find? n.hash = some n' ∧ n'.header = n.header := by
  obtain ⟨id', n', hn', hheader⟩ :=
    (mem_headers_iff t').1 (hsame n.header ((mem_headers_iff t).2 ⟨id, n, hn, rfl⟩))
  refine ⟨n', ?_, hheader⟩
  have hhash : n.hash = n'.hash := congrArg Header.hash hheader.symm
  rw [hhash]
  exact h'.find?_of_node? hn'

/-- **A header stands equally high in all trees that hold the same headers.**  The induction is on the
number of the node in the first tree; the parents of both nodes have the hash that the header
names. -/
theorem WellFormed.height_eq (h : t.WellFormed genesis) (h' : t'.WellFormed genesis)
    (hsame : ∀ header, header ∈ t.headers → header ∈ t'.headers) :
    ∀ (id : Nat) {id' : Nat} {n n' : TreeNode}, t.node? id = some n → t'.node? id' = some n' →
      n'.header = n.header → n'.height = n.height := by
  intro id
  induction id using Nat.strongRecOn with
  | ind id ih =>
    intro id' n n' hn hn' hheader
    have hhash : n'.hash = n.hash := congrArg Header.hash hheader
    by_cases hroot : n.hash = genesis.hash
    · rw [h.eq_root hn hroot, h'.eq_root hn' (hhash.trans hroot)]
    · -- neither of the two is the first node
      have hid : id ≠ 0 := by
        rintro rfl
        rw [h.root] at hn
        cases hn
        exact hroot rfl
      have hid' : id' ≠ 0 := by
        rintro rfl
        rw [h'.root] at hn'
        cases hn'
        exact hroot hhash.symm
      obtain ⟨p, hp, hbefore, hprevious, hheight⟩ := h.parent hn hid
      obtain ⟨p', hp', -, hprevious', hheight'⟩ := h'.parent hn' hid'
      obtain ⟨pid, -, hpnode⟩ := Option.bind_eq_some_iff.1 hp
      obtain ⟨pid', -, hpnode'⟩ := Option.bind_eq_some_iff.1 hp'
      rw [← h.id_eq hpnode] at hpnode
      -- the parent's header is in the second tree as well, and there is one node for its hash
      obtain ⟨q, hq, hqheader⟩ := h'.node_of_headers hsame hpnode
      have hqnode := (h'.of_find? hq).1
      have hqhash : q.hash = p'.hash := by
        rw [(h'.of_find? hq).2, hprevious, hprevious', hheader]
      cases h'.eq_of_hash_eq hqnode hpnode' hqhash
      rw [hheight, hheight', ih p.id hbefore hpnode hqnode hqheader]

/-- **What a tree says of hashes depends only on which headers it holds.** -/
theorem WellFormed.lookup_eq_of_headers (h : t.WellFormed genesis) (h' : t'.WellFormed genesis)
    (hsame : ∀ header, header ∈ t.headers ↔ header ∈ t'.headers) (hash : Word256) :
    t.lookup hash = t'.lookup hash := by
  have hhashes : hash ∈ t.hashes ↔ hash ∈ t'.hashes := by
    simp only [hashes, List.mem_map, hsame]
  cases hfound : t.find? hash with
  | none =>
    have hfound' : t'.find? hash = none := by
      rw [h'.find?_eq_none_iff, ← hhashes]
      exact h.find?_eq_none_iff.1 hfound
    rw [lookup, lookup, hfound, hfound']
    rfl
  | some n =>
    obtain ⟨hn, hhash⟩ := h.of_find? hfound
    obtain ⟨n', hfound', hheader⟩ := h'.node_of_headers (fun header => (hsame header).1) hn
    rw [hhash] at hfound'
    have hn' := (h'.of_find? hfound').1
    have hheight : n'.height = n.height :=
      h.height_eq h' (fun header => (hsame header).1) n.id hn hn' hheader
    rw [lookup, lookup, hfound, hfound', Option.map_some, Option.map_some, h.parent_hash hn,
      h'.parent_hash hn', hheader, hheight]

end

end HeaderPeer.HeaderTree
