/-
  HeaderPeer.Proofs.Merkle.Levels — the hash tree by level and place.

  `root` pairs up one level after the other until one entry is left.  The tree can be described
  without that loop: at level zero stand the leaves, and an entry of a higher level is the digest of
  two entries of the level below, or of a single last one twice (`node`).  The root is the only entry
  of the first level that has but one.

  Main statements:
    * `node_pairUp` — pairing up the leaves moves every entry down by one level.
    * `root_eq_node` — the loop ends with the entry of the first level of width one.
    * `root_by_levels` — so the root is that of the description, and a repeated tail keeps it.
-/
import HeaderPeer.Proofs.Merkle.RepeatedTail

namespace HeaderPeer.Merkle

/-! ## §1. Widths -/

/-- How many entries a level of the tree over `count` leaves has: half of those of the level below,
rounded up. -/
def width (count : Nat) : (level : Nat) → Nat
  | 0 => count
  | level + 1 => (width count level + 1) / 2

/-- The first level with a single entry. -/
structure Top (count level : Nat) : Prop where
  single : width count level = 1
  first : ∀ below < level, width count below ≠ 1

/-- The tree over half of the leaves has the widths of the tree over all of them, one level up. -/
theorem width_half (count level : Nat) : width ((count + 1) / 2) level = width count (level + 1) := by
  induction level with
  | zero => rfl
  | succ level ih =>
    show (width ((count + 1) / 2) level + 1) / 2 = (width count (level + 1) + 1) / 2
    rw [ih]

theorem top_one : Top 1 0 := ⟨rfl, fun below hbelow => absurd hbelow (Nat.not_lt_zero below)⟩

/-- Where there are several leaves, the top is one level above that of the tree over half of them. -/
theorem Top.above {count level : Nat} (h : Top ((count + 1) / 2) level) (hcount : count ≠ 1) :
    Top count (level + 1) where
  single := (width_half count level).symm.trans h.single
  first below hbelow := by
    cases below with
    | zero => exact hcount
    | succ below =>
      rw [← width_half]
      exact h.first below (Nat.lt_of_succ_lt_succ hbelow)

/-- Below the top, levels have two entries or more. -/
theorem Top.two_le_width {count top level : Nat} (h : Top count top) (hlevel : level < top) :
    2 ≤ width count level := by
  have hne := h.first level hlevel
  -- an empty level would have nothing but empty levels above it
  have hpos : width count level ≠ 0 := by
    intro hzero
    have hall : ∀ more, width count (level + more) = 0 := by
      intro more
      induction more with
      | zero => exact hzero
      | succ more ih =>
        show (width count (level + more) + 1) / 2 = 0
        rw [ih]
    have htop := hall (top - level)
    rw [Nat.add_sub_cancel' (Nat.le_of_lt hlevel), h.single] at htop
    cases htop
  omega

/-! ## §2. Entries -/

variable (h : Hasher)

/-- The entry at a place of a level of the tree over `leaves`.  A last entry without a right
neighbour is its own neighbour. -/
def node (leaves : List Word256) : (level place : Nat) → Word256
  | 0, place => leaves.getD place 0
  | level + 1, place =>
    h.digestPair (node leaves level (2 * place))
      (node leaves level (min (2 * place + 1) (width leaves.length level - 1)))

/-- An entry of the level above digests two neighbours, or a single last entry twice. -/
theorem getD_pairUp (leaves : List Word256) (place : Nat) (hplace : 2 * place < leaves.length) :
    (pairUp h leaves).getD place 0
      = h.digestPair (leaves.getD (2 * place) 0)
          (leaves.getD (min (2 * place + 1) (leaves.length - 1)) 0) := by
  fun_induction pairUp h leaves generalizing place with
  | case1 left right rest ih =>
    cases place with
    | zero =>
      have hnext : min (2 * 0 + 1) ((left :: right :: rest).length - 1) = 1 := by
        simp only [List.length_cons]
        omega
      rw [hnext]
      rfl
    | succ place =>
      -- two entries are passed over below for the one above
      simp only [List.length_cons] at hplace ⊢
      have hpair := ih place (by omega)
      have hleft : 2 * (place + 1) = 2 * place + 1 + 1 := by omega
      have hright : min (2 * (place + 1) + 1) (rest.length + 1 + 1 - 1)
          = min (2 * place + 1) (rest.length - 1) + 1 + 1 := by omega
      rw [hright, hleft]
      simp only [List.getD_cons_succ]
      exact hpair
  | case2 single =>
    simp only [List.length_singleton] at hplace
    obtain rfl : place = 0 := by omega
    rfl
  | case3 => cases hplace

/-- **Pairing up moves every entry down by one level.** -/
theorem node_pairUp (leaves : List Word256) :
    ∀ (level place : Nat), place < width leaves.length (level + 1) →
      node h (pairUp h leaves) level place = node h leaves (level + 1) place
  | 0, place, hplace => by
    have hbelow : 2 * place < leaves.length := by
      change place < (leaves.length + 1) / 2 at hplace
      omega
    exact getD_pairUp h leaves place hbelow
  | level + 1, place, hplace => by
    have hwidth : width (pairUp h leaves).length level = width leaves.length (level + 1) := by
      rw [length_pairUp, width_half]
    change place < (width leaves.length (level + 1) + 1) / 2 at hplace
    show h.digestPair (node h (pairUp h leaves) level (2 * place))
        (node h (pairUp h leaves) level
          (min (2 * place + 1) (width (pairUp h leaves).length level - 1))) = _
    rw [hwidth, node_pairUp leaves level (2 * place) (by omega),
      node_pairUp leaves level _ (by omega)]
    rfl

/-! ## §3. The root -/

/-- **The loop ends with the entry of the first level that has no other.** -/
theorem root_eq_node (leaves : List Word256) (hne : leaves ≠ []) :
    ∃ top, Top leaves.length top ∧ root h leaves = node h leaves top 0 := by
  fun_induction root h leaves with
  | case1 => exact absurd rfl hne
  | case2 single => exact ⟨0, top_one, rfl⟩
  | case3 left right rest ih =>
    have hup : pairUp h (left :: right :: rest) ≠ [] := List.cons_ne_nil _ _
    obtain ⟨top, htop, hroot⟩ := ih hup
    rw [length_pairUp] at htop
    have habove : Top (left :: right :: rest).length (top + 1) := by
      refine htop.above ?_
      simp only [List.length_cons]
      omega
    have hplace : 0 < width (left :: right :: rest).length (top + 1) := by
      rw [habove.single]
      decide
    exact ⟨top + 1, habove, hroot.trans (node_pairUp h _ top 0 hplace)⟩

/-- **The root by levels.**  A second copy of the last `2 ^ k` leaves, beside an odd number of such
groups, keeps the root; and the root of any leaves is the entry of the first level with no other. -/
theorem root_by_levels :
    (∀ (leaves : List Word256) (m k : Nat), m % 2 = 1 → 3 ≤ m → leaves.length = m * 2 ^ k →
        root h (leaves ++ leaves.drop (leaves.length - 2 ^ k)) = root h leaves)
      ∧ ∀ leaves : List Word256, leaves ≠ [] →
        ∃ top, width leaves.length top = 1 ∧ (∀ level < top, width leaves.length level ≠ 1)
          ∧ root h leaves = node h leaves top 0 := by
  constructor
  · intro leaves m k hodd hm hlen
    exact root_repeatTail h hodd hm k leaves hlen
  · intro leaves hne
    obtain ⟨top, htop, hroot⟩ := root_eq_node h leaves hne
    exact ⟨top, htop.single, htop.first, hroot⟩

/-- Six leaves have the root of their third level, and keep it when the last two are repeated. -/
theorem six_leaves_root :
    root .doubleSha256 [1, 2, 3, 4, 5, 6, 5, 6] = root .doubleSha256 [1, 2, 3, 4, 5, 6]
      ∧ ∃ top, width 6 top = 1 ∧ (∀ level < top, width 6 level ≠ 1)
        ∧ root .doubleSha256 [1, 2, 3, 4, 5, 6] = node .doubleSha256 [1, 2, 3, 4, 5, 6] top 0 :=
  ⟨(root_by_levels .doubleSha256).1 [1, 2, 3, 4, 5, 6] 3 1 rfl (by decide) rfl,
    (root_by_levels .doubleSha256).2 [1, 2, 3, 4, 5, 6] (by decide)⟩

end HeaderPeer.Merkle
