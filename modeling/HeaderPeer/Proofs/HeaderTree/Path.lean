/-
  HeaderPeer.Proofs.HeaderTree.Path — the way from a node to the first one, parent by parent.

  Each step from a node to its parent goes one height down, so at every height up to the node's own
  there is one node on its way.  The walk that goes down until it is low enough finds that node.

  Main statements:
    * `WellFormed.exists_back` — the way is as long as the node is high.
    * `WellFormed.ancestor?_eq_back` — the walk by height is the walk by steps.
-/
import HeaderPeer.Proofs.HeaderTree.Ancestor

namespace HeaderPeer.HeaderTree

/-- The node that is reached from `n` in the given number of steps to the parent. -/
def back (t : HeaderTree) : (steps : Nat) → (n : TreeNode) → Option TreeNode
  | 0, n => some n
  | steps + 1, n => (t.parent? n).bind (t.back steps)

variable {genesis : Header} {t : HeaderTree}

theorem back_succ_of_parent {n p : TreeNode} (hp : t.parent? n = some p) (steps : Nat) :
    t.back (steps + 1) n = t.back steps p := by
  rw [back, hp]
  rfl

/-- Going on from a node on the way is going on along the way. -/
theorem back_add {n m : TreeNode} {steps : Nat} (hm : t.back steps n = some m) (more : Nat) :
    t.back (steps + more) n = t.back more m := by
  induction steps generalizing n with
  | zero =>
    cases hm
    rw [Nat.zero_add]
  | succ steps ih =>
    obtain ⟨p, hp, hback⟩ := Option.bind_eq_some_iff.1 hm
    rw [Nat.add_right_comm, back_succ_of_parent hp]
    exact ih hback

/-- **The way to the first node has as many steps as the node is high.** -/
theorem WellFormed.exists_back (h : t.WellFormed genesis) {steps : Nat} {n : TreeNode}
    (hn : t.node? n.id = some n) (hsteps : steps ≤ n.height) :
    ∃ m, t.back steps n = some m ∧ t.node? m.id = some m ∧ m.height + steps = n.height := by
  induction steps generalizing n with
  | zero => exact ⟨n, rfl, hn, rfl⟩
  | succ steps ih =>
    obtain ⟨p, hp, hpnode, -, hheight⟩ := h.parent_of_pos hn (by omega)
    obtain ⟨m, hback, hm, hlow⟩ := ih hpnode (by omega)
    refine ⟨m, ?_, hm, by omega⟩
    rw [back_succ_of_parent hp, hback]

/-- **The node at a height on the way is the one that many steps down.** -/
theorem WellFormed.ancestor?_eq_back (h : t.WellFormed genesis) {steps height : Nat}
    {n : TreeNode} (hn : t.node? n.id = some n) (hheight : height + steps = n.height) :
    t.ancestor? n height = t.back steps n := by
  induction steps generalizing n with
  | zero =>
    rw [show height = n.height by omega]
    exact ancestor?_self h n
  | succ steps ih =>
    obtain ⟨p, hp, hpnode, -, hstep⟩ := h.parent_of_pos hn (by omega)
    rw [ancestor?_of_lt h hn hp (by omega), back_succ_of_parent hp]
    exact ih hpnode (by omega)

/-- A node that stands at height zero is the first one. -/
theorem WellFormed.eq_root_of_height (h : t.WellFormed genesis) {n : TreeNode}
    (hn : t.node? n.id = some n) (hzero : n.height = 0) :
    n = { id := 0, header := genesis, height := 0, parent := none } := by
  have hid : n.id = 0 := Decidable.of_not_not fun hne => by
    obtain ⟨p, -, -, -, hheight⟩ := h.parent hn hne
    omega
  rw [hid, h.root] at hn
  exact (Option.some.inj hn).symm

end HeaderPeer.HeaderTree
