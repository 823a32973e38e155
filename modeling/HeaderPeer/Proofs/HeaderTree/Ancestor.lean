/-
  HeaderPeer.Proofs.HeaderTree.Ancestor — the walk from a node towards the first one.

  The walk has as much fuel as there are nodes.  In a well-formed tree a parent has a smaller number
  than its child, so the fuel is never used up, and the walk obeys the two equations that one would
  define it by.

  Main statements: `ancestor?_self`, `ancestor?_of_lt`.
-/
import HeaderPeer.Proofs.HeaderTree.WellFormed

namespace HeaderPeer.HeaderTree

variable {genesis : Header} {t : HeaderTree}

/-- Every node above the first one has a parent, with a smaller number and one step lower. -/
theorem WellFormed.parent_of_pos (h : t.WellFormed genesis) {id : Nat} {n : TreeNode}
    (hn : t.node? id = some n) (hpos : 0 < n.height) :
    ∃ p, t.parent? n = some p ∧ t.node? p.id = some p ∧ p.id < n.id ∧ n.height = p.height + 1 := by
  obtain ⟨p, hp, hbefore, -, hheight⟩ := h.parent hn (h.ne_zero_of_pos hn hpos)
  obtain ⟨pid, -, hpnode⟩ := Option.bind_eq_some_iff.1 hp
  have hplace := h.id_eq hpnode
  subst hplace
  refine ⟨p, hp, hpnode, ?_, hheight⟩
  rw [h.id_eq hn]
  exact hbefore

/-- Fuel for all nodes up to the one where the walk begins is enough.  The induction is on the
fuel; each step goes to a node with a smaller number. -/
theorem descend_fuel (h : t.WellFormed genesis) (height : Nat) :
    ∀ {fuel fuel' : Nat} {n : TreeNode}, t.node? n.id = some n → n.id < fuel → n.id < fuel' →
      t.descend height fuel n = t.descend height fuel' n := by
  intro fuel
  induction fuel with
  | zero =>
    intro fuel' n _ hlt
    exact absurd hlt (Nat.not_lt_zero _)
  | succ fuel ih =>
    intro fuel' n hn hlt hlt'
    obtain ⟨fuel', rfl⟩ : ∃ k, fuel' = k + 1 := ⟨fuel' - 1, by omega⟩
    unfold descend
    by_cases hlow : n.height ≤ height
    · rw [if_pos hlow, if_pos hlow]
    · obtain ⟨p, hp, hpnode, hbefore, -⟩ := h.parent_of_pos hn (by omega)
      rw [if_neg hlow, if_neg hlow, hp]
      exact ih hpnode (by omega) (by omega)

/-- A node is its own ancestor at its own height. -/
theorem ancestor?_self (h : t.WellFormed genesis) (n : TreeNode) :
    t.ancestor? n n.height = some n := by
  obtain ⟨k, hk⟩ : ∃ k, t.size = k + 1 := ⟨t.size - 1, by
    have := lt_size_of_node? h.root
    omega⟩
  rw [ancestor?, if_neg (Nat.lt_irrefl _), hk, descend, if_pos (Nat.le_refl _)]

/-- Below a node its ancestors are those of its parent. -/
theorem ancestor?_of_lt (h : t.WellFormed genesis) {id height : Nat} {n p : TreeNode}
    (hn : t.node? id = some n) (hp : t.parent? n = some p) (hlt : height < n.height) :
    t.ancestor? n height = t.ancestor? p height := by
  obtain ⟨q, hq, hqnode, hbefore, hheight⟩ := h.parent_of_pos hn (by omega)
  rw [hp] at hq
  cases hq
  have hsize := lt_size_of_node? hn
  rw [← h.id_eq hn] at hsize
  -- one step of the walk is spent on `n`, and the rest of the fuel is enough for `p`
  obtain ⟨k, hk⟩ : ∃ k, t.size = k + 1 := ⟨t.size - 1, by omega⟩
  rw [ancestor?, ancestor?, if_neg (by omega), if_neg (by omega)]
  calc t.descend height t.size n
      = t.descend height k p := by
        rw [hk, descend, if_neg (by omega), hp]
        rfl
    _ = t.descend height t.size p := descend_fuel h height hqnode (by omega) (by omega)

end HeaderPeer.HeaderTree
