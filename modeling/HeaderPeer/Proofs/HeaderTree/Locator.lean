/-
  HeaderPeer.Proofs.HeaderTree.Locator — which headers a locator lists.

  The heights in a locator depend on the height of the best header alone.  Each entry stands a fixed
  depth below the first one (`depth`), as long as there is room, and the first entry without room is
  the first header of the network and ends the list.  The strides grow by doubling, so the list has
  about as many entries as the height has digits; and a stride is never much longer than the way
  already gone, so wherever two chains part, a listed header is about as near below that place as
  the best header is above it.

  Main statements:
    * `Locator.spaced_heights`, `Locator.length_heights_le`, `Locator.exists_near` — the heights.
    * `stands_locatorFrom` — the entries are the nodes at these heights on the way from the best.
    * `locator_shape` — all of this of the locator of every tree, whatever happened to it.
-/
import HeaderPeer.Proofs.HeaderTree.Entry
import HeaderPeer.Proofs.HeaderTree.Path
import Mathlib.Data.List.Forall2
import Mathlib.Data.List.Nodup
import Mathlib.Data.Nat.Find
import Mathlib.Data.Nat.Log

namespace HeaderPeer

/-! ## §1. Heights -/

namespace Locator

/-- How far below the entry at `i` the next entry stands, if there is room. -/
def spacing (i : Nat) : Nat := if i < 9 then 1 else 2 ^ (i - 8)

/-- How far below the first entry the entry at `i` stands, if there is room. -/
def depth (i : Nat) : Nat := if i ≤ 9 then i else 7 + 2 ^ (i - 8)

/-- The heights of the entries of a locator from the height `top` on.  The next entry of the first
ten stands one step lower, then the steps double; the first entry at height zero is the last. -/
structure Spaced (top : Nat) (heights : List Nat) : Prop where
  first : heights[0]? = some top
  dense : ∀ {i h h'}, heights[i]? = some h → heights[i + 1]? = some h' → i < 9 → h' + 1 = h
  sparse : ∀ {i h h'}, heights[i]? = some h → heights[i + 1]? = some h' → 9 ≤ i →
    h' = h - 2 ^ (i - 8)
  ends : ∀ {i}, heights[i]? = some 0 ↔ i + 1 = heights.length

theorem spacing_pos (i : Nat) : 0 < spacing i := by
  unfold spacing
  split
  · exact Nat.one_pos
  · exact Nat.two_pow_pos _

/-- From the tenth entry on the steps double. -/
theorem spacing_succ (i : Nat) :
    spacing (i + 1)
      = if HeaderTree.denseEntries ≤ i + 1 + 1 then 2 * spacing i else spacing i := by
  unfold spacing HeaderTree.denseEntries
  rcases Nat.lt_trichotomy i 8 with hlt | rfl | hgt
  · rw [if_pos (by omega), if_neg (by omega), if_pos (by omega)]
  · rfl
  · rw [if_neg (by omega), if_pos (by omega), if_neg (by omega),
      show i + 1 - 8 = i - 8 + 1 by omega, Nat.pow_succ, Nat.mul_comm]

theorem depth_succ (i : Nat) : depth (i + 1) = depth i + spacing i := by
  unfold depth spacing
  rcases Nat.lt_trichotomy i 9 with hlt | rfl | hgt
  · rw [if_pos (by omega), if_pos (by omega), if_pos hlt]
  · rfl
  · rw [if_neg (by omega), if_neg (by omega), if_neg (by omega),
      show i + 1 - 8 = i - 8 + 1 by omega, Nat.pow_succ]
    omega

theorem depth_strictMono : StrictMono depth := by
  refine strictMono_nat_of_lt_succ fun i => ?_
  rw [depth_succ]
  exact Nat.lt_add_of_pos_right (spacing_pos i)

/-- A step is at most one longer than the way from the first entry to where it begins. -/
theorem spacing_le (i : Nat) : spacing i ≤ depth i + 1 := by
  unfold spacing depth
  rcases Nat.lt_trichotomy i 9 with hlt | rfl | hgt
  · rw [if_pos hlt]
    omega
  · decide
  · rw [if_neg (by omega), if_neg (by omega)]
    omega

theorem le_depth (i : Nat) : i ≤ depth i := by
  induction i with
  | zero => exact Nat.zero_le _
  | succ i ih =>
    have hpos := spacing_pos i
    rw [depth_succ]
    omega

theorem exists_le_depth (top : Nat) : ∃ i, top ≤ depth i := ⟨top, le_depth top⟩

/-- The place of the last entry: the first one without room above height zero. -/
def last (top : Nat) : Nat := Nat.find (exists_le_depth top)

theorem le_depth_iff {top i : Nat} : top ≤ depth i ↔ last top ≤ i := by
  constructor
  · exact fun h => Nat.find_min' (exists_le_depth top) h
  · intro h
    have hlast : top ≤ depth (last top) := Nat.find_spec (exists_le_depth top)
    exact Nat.le_trans hlast (depth_strictMono.monotone h)

/-- The heights of the entries. -/
def heights (top : Nat) : List Nat := (List.range (last top + 1)).map fun i => top - depth i

@[simp] theorem length_heights (top : Nat) : (heights top).length = last top + 1 := by
  rw [heights, List.length_map, List.length_range]

theorem heights_getElem? {top i h : Nat} :
    (heights top)[i]? = some h ↔ i ≤ last top ∧ h = top - depth i := by
  rw [heights, List.getElem?_map]
  by_cases hi : i ≤ last top
  · rw [List.getElem?_range (by omega), Option.map_some, Option.some_inj, and_iff_right hi]
    exact eq_comm
  · rw [List.getElem?_eq_none (by simp; omega)]
    exact ⟨fun h => (nomatch h), fun h => absurd h.1 hi⟩

/-- **The heights begin at the top, go down by the steps of a locator and end at zero.** -/
theorem spaced_heights (top : Nat) : Spaced top (heights top) := by
  -- one step lower, as far as there is room
  have hnext : ∀ {i h h'}, (heights top)[i]? = some h → (heights top)[i + 1]? = some h' →
      h' = h - spacing i ∧ 0 < h := by
    intro i h h' hi hi'
    rw [heights_getElem?] at hi hi'
    have hroom : ¬ top ≤ depth i := by
      rw [le_depth_iff]
      omega
    have hstep := depth_succ i
    omega
  refine ⟨?_, ?_, ?_, ?_⟩
  · exact heights_getElem?.2 ⟨Nat.zero_le _, rfl⟩
  · intro i h h' hi hi' hdense
    obtain ⟨hheight, hpos⟩ := hnext hi hi'
    rw [spacing, if_pos hdense] at hheight
    omega
  · intro i h h' hi hi' hsparse
    rw [(hnext hi hi').1, spacing, if_neg (by omega)]
  · intro i
    have hend : top ≤ depth i ↔ last top ≤ i := le_depth_iff
    rw [heights_getElem?, length_heights]
    omega

/-- The heights fall from entry to entry. -/
theorem pairwise_heights (top : Nat) : (heights top).Pairwise (· > ·) := by
  rw [heights, List.pairwise_map]
  refine List.pairwise_lt_range.imp_of_mem fun {i j} _ hj hlt => ?_
  have hroom : ¬ top ≤ depth i := by
    rw [le_depth_iff]
    have := List.mem_range.1 hj
    omega
  have hdeeper := depth_strictMono hlt
  omega

/-- **A locator has at most ten entries more than the height has binary digits.** -/
theorem length_heights_le (top : Nat) : (heights top).length ≤ 10 + Nat.clog 2 (top + 1) := by
  have hpow : top + 1 ≤ 2 ^ Nat.clog 2 (top + 1) := Nat.le_pow_clog (by decide) _
  generalize Nat.clog 2 (top + 1) = digits at hpow ⊢
  have hdeep : top ≤ depth (9 + digits) := by
    unfold depth
    split
    · rw [show digits = 0 by omega] at hpow
      omega
    · rw [show 9 + digits - 8 = digits + 1 by omega, Nat.pow_succ]
      omega
  have hlast := le_depth_iff.1 hdeep
  rw [length_heights]
  omega

/-- **Below every height stands an entry that is no farther from it than the top is.**  The first
entry that is not above the height will do: the step that led to it is hardly longer than the way
gone before it. -/
theorem exists_near {top fork : Nat} (h : fork ≤ top) :
    ∃ height ∈ heights top, height ≤ fork ∧ fork - height ≤ top - fork := by
  have hlow : ∃ i, top - depth i ≤ fork := ⟨last top, by
    have := le_depth_iff.2 (Nat.le_refl (last top))
    omega⟩
  obtain ⟨i, hi, hfirst⟩ : ∃ i, top - depth i ≤ fork ∧ ∀ j < i, ¬ top - depth j ≤ fork :=
    ⟨Nat.find hlow, Nat.find_spec hlow, fun _ hj => Nat.find_min hlow hj⟩
  have hlisted : top - depth i ∈ heights top := by
    refine List.mem_iff_getElem?.2 ⟨i, heights_getElem?.2 ⟨?_, rfl⟩⟩
    -- past the last entry there would be an earlier one at height zero
    refine Decidable.of_not_not fun hlate => hfirst (last top) (by omega) ?_
    have := le_depth_iff.2 (Nat.le_refl (last top))
    omega
  refine ⟨top - depth i, hlisted, hi, ?_⟩
  cases i with
  | zero =>
    have : depth 0 = 0 := rfl
    omega
  | succ i =>
    have habove := hfirst i (Nat.lt_succ_self i)
    have hstep := spacing_le i
    have hdeeper := depth_succ i
    omega

/-- What is left of the heights at a place begins with the height of that place. -/
theorem drop_heights {top i : Nat} (h : i ≤ last top) :
    (heights top).drop i = (top - depth i) :: (heights top).drop (i + 1) := by
  have hi : i < (heights top).length := by
    rw [length_heights]
    omega
  rw [List.drop_eq_getElem_cons hi]
  congr 1
  exact (heights_getElem?.1 (List.getElem?_eq_getElem hi)).2

end Locator

/-! ## §2. The entries -/

namespace HeaderTree

open Locator (heights depth spacing last)

/-- The header with this hash stands at this height on the way from `best` to the first node. -/
def Stands (t : HeaderTree) (best : TreeNode) (height : Nat) (hash : Word256) : Prop :=
  height ≤ best.height ∧ ∃ n, t.back (best.height - height) best = some n
    ∧ t.node? n.id = some n ∧ n.height = height ∧ n.hash = hash

variable {genesis : Header} {t : HeaderTree} {best n : TreeNode}

/-- On the way there is one header for each height and one height for each header. -/
theorem WellFormed.stands_biUnique (h : t.WellFormed genesis) (best : TreeNode) :
    Relator.BiUnique (t.Stands best) := by
  constructor
  · rintro height height' hash ⟨-, n, -, hn, rfl, rfl⟩ ⟨-, m, -, hm, rfl, hhash⟩
    rw [h.eq_of_hash_eq hn hm hhash.symm]
  · rintro height hash hash' ⟨-, n, hn, -, -, rfl⟩ ⟨-, m, hm, -, -, rfl⟩
    rw [hn] at hm
    cases hm
    rfl

/-- On the way the first header stands at height zero, and there only. -/
theorem WellFormed.stands_genesis_iff (h : t.WellFormed genesis) {height : Nat} {hash : Word256}
    (hstands : t.Stands best height hash) : hash = genesis.hash ↔ height = 0 := by
  obtain ⟨-, n, -, hn, rfl, rfl⟩ := hstands
  constructor
  · intro hhash
    rw [h.eq_root hn hhash]
  · intro hzero
    rw [h.eq_root_of_height hn hzero]
    rfl

/-- The stride that leads on from the entry at `i`, if the one that led there was `stride`. -/
def nextStride (i stride : Nat) : Nat := if denseEntries ≤ i + 1 then 2 * stride else stride

theorem locatorFrom_of_pos {fuel i stride : Nat} {next : TreeNode} (hpos : 0 < n.height)
    (hnext : t.ancestor? n (n.height - nextStride i stride) = some next) :
    t.locatorFrom (fuel + 1) i stride n
      = n.hash :: t.locatorFrom fuel (i + 1) (nextStride i stride) next := by
  unfold nextStride at hnext ⊢
  rw [locatorFrom, if_neg (Nat.pos_iff_ne_zero.1 hpos)]
  simp only [hnext]

/-- The walk from `best` has come to `n`, and `n` is the entry at `i`. -/
structure Reaches (t : HeaderTree) (best : TreeNode) (i : Nat) (n : TreeNode) : Prop where
  room : i ≤ last best.height
  node : t.node? n.id = some n
  height : n.height = best.height - depth i
  way : t.back (best.height - n.height) best = some n

theorem Reaches.stands (h : t.Reaches best i n) : t.Stands best (best.height - depth i) n.hash := by
  refine ⟨Nat.sub_le _ _, n, ?_, h.node, h.height, rfl⟩
  rw [← h.height]
  exact h.way

/-- **The entry after one that is not the first header is there**, as far below as it should be. -/
theorem Reaches.next (hform : t.WellFormed genesis) {i : Nat} (h : t.Reaches best i n)
    (hpos : 0 < n.height) :
    ∃ next, t.ancestor? n (n.height - spacing i) = some next ∧ t.Reaches best (i + 1) next := by
  have hheight := h.height
  have hdeeper := Locator.depth_succ i
  obtain ⟨next, hback, hnode, hlow⟩ :=
    hform.exists_back h.node (Nat.sub_le n.height (n.height - spacing i))
  have hwalk : t.ancestor? n (n.height - spacing i)
      = t.back (n.height - (n.height - spacing i)) n :=
    hform.ancestor?_eq_back h.node (by omega)
  refine ⟨next, hwalk.trans hback, ?_, hnode, by omega, ?_⟩
  · -- the entry is above height zero, so it is not the last one
    refine Nat.lt_of_le_of_ne h.room fun hlast => ?_
    have := Locator.le_depth_iff.2 (Nat.le_of_eq hlast.symm)
    omega
  · rw [show best.height - next.height
      = best.height - n.height + (n.height - (n.height - spacing i)) by omega,
      back_add h.way]
    exact hback

/-- **From each entry on a locator lists the headers at the heights that are left.**  The induction
is on the fuel, of which there is more than the entry is high; the stride is the one that the place
of the entry calls for. -/
theorem WellFormed.stands_locatorFrom (hform : t.WellFormed genesis) :
    ∀ {fuel i stride : Nat} {n : TreeNode}, t.Reaches best i n → n.height < fuel →
      nextStride i stride = spacing i →
      List.Forall₂ (t.Stands best) ((heights best.height).drop i)
        (t.locatorFrom fuel i stride n) := by
  intro fuel
  induction fuel with
  | zero =>
    intro i stride n _ hfuel
    exact absurd hfuel (Nat.not_lt_zero _)
  | succ fuel ih =>
    intro i stride n hreaches hfuel hstride
    have hheight := hreaches.height
    rw [Locator.drop_heights hreaches.room]
    by_cases hzero : n.height = 0
    · -- the last entry
      have hlast : last best.height ≤ i := Locator.le_depth_iff.1 (by omega)
      have hdone : (heights best.height).drop (i + 1) = [] :=
        List.drop_eq_nil_of_le (by rw [Locator.length_heights]; omega)
      rw [hdone, locatorFrom, if_pos hzero]
      exact .cons hreaches.stands .nil
    · obtain ⟨next, hnext, hreaches'⟩ := hreaches.next hform (Nat.pos_of_ne_zero hzero)
      have hlower := Locator.spacing_pos i
      have hheight' := hreaches'.height
      have hdeeper := Locator.depth_succ i
      rw [← hstride] at hnext
      rw [locatorFrom_of_pos (Nat.pos_of_ne_zero hzero) hnext, hstride]
      refine .cons hreaches.stands (ih hreaches' (by omega) ?_)
      rw [Locator.spacing_succ]
      rfl

/-- In two lists whose members are related in pairs, there is a related one for each. -/
theorem getElem?_of_forall₂ {α β : Type} {R : α → β → Prop} {l : List α} {l' : List β}
    (h : List.Forall₂ R l l') {i : Nat} {a : α} (ha : l[i]? = some a) :
    ∃ b, l'[i]? = some b ∧ R a b := by
  obtain ⟨hi, rfl⟩ := List.getElem?_eq_some_iff.1 ha
  have hi' : i < l'.length := h.length_eq ▸ hi
  exact ⟨l'[i], List.getElem?_eq_getElem hi', h.get hi hi'⟩

section

variable {hashes : List Word256}

/-- The entries begin with the best header. -/
theorem head?_of_entries
    (hentries : List.Forall₂ (t.Stands best) (heights best.height) hashes) :
    hashes.head? = some best.hash := by
  obtain ⟨hash, hhash, -, n, hn, -, -, rfl⟩ :=
    getElem?_of_forall₂ hentries (Locator.spaced_heights best.height).first
  rw [Nat.sub_self] at hn
  cases hn
  rw [List.head?_eq_getElem?]
  exact hhash

/-- The entries end with the first header: the last height is zero. -/
theorem WellFormed.getLast?_of_entries (h : t.WellFormed genesis)
    (hentries : List.Forall₂ (t.Stands best) (heights best.height) hashes) :
    hashes.getLast? = some genesis.hash := by
  obtain ⟨hash, hhash, hstands⟩ := getElem?_of_forall₂ hentries
    ((Locator.spaced_heights best.height).ends.2 (Locator.length_heights _).symm)
  rw [(h.stands_genesis_iff hstands).2 rfl] at hhash
  rw [List.getLast?_eq_getElem?, ← hentries.length_eq, Locator.length_heights]
  exact hhash

/-- No header is listed twice: the heights are different ones. -/
theorem WellFormed.nodup_of_entries (h : t.WellFormed genesis)
    (hentries : List.Forall₂ (t.Stands best) (heights best.height) hashes) : hashes.Nodup :=
  (List.rel_nodup (h.stands_biUnique best) hentries).1
    ((Locator.pairwise_heights best.height).imp Nat.ne_of_gt)

end

/-- A locator that doubles its strides up to `cap` only, as a machine word does. -/
def cappedFrom (t : HeaderTree) (cap : Nat) : (fuel listed stride : Nat) → TreeNode → List Word256
  | 0, _, _, _ => []
  | fuel + 1, listed, stride, n =>
    if n.height = 0 then [n.hash]
    else
      let stride := if denseEntries ≤ listed + 1 then min cap (2 * stride) else stride
      match t.ancestor? n (n.height - stride) with
      | some next => n.hash :: cappedFrom t cap fuel (listed + 1) stride next
      | none => [n.hash]

/-- A node that is found on the walk down is no higher than what was asked for. -/
theorem height_le_of_descend {height : Nat} : ∀ {fuel : Nat} {n m : TreeNode},
    t.descend height fuel n = some m → m.height ≤ height := by
  intro fuel
  induction fuel with
  | zero =>
    intro n m h
    cases h
  | succ fuel ih =>
    intro n m h
    rw [descend] at h
    split at h
    · next hlow =>
      cases h
      exact hlow
    · obtain ⟨p, -, hp⟩ := Option.bind_eq_some_iff.1 h
      exact ih hp

theorem height_le_of_ancestor? {height : Nat} {m : TreeNode}
    (h : t.ancestor? n height = some m) : m.height ≤ height := by
  rw [ancestor?] at h
  split at h
  · cases h
  · exact height_le_of_descend h

/-- **A cap on the strides that no height exceeds changes nothing**: a stride as long as the cap
leads to the first header, and so does every longer one. -/
theorem cappedFrom_eq {cap : Nat} : ∀ {fuel i stride : Nat} {n : TreeNode}, n.height ≤ cap →
    t.cappedFrom cap fuel i (min cap stride) n = t.locatorFrom fuel i stride n := by
  intro fuel
  induction fuel with
  | zero =>
    intro i stride n _
    rfl
  | succ fuel ih =>
    intro i stride n hcap
    have hstride : (if denseEntries ≤ i + 1 then min cap (2 * min cap stride) else min cap stride)
        = min cap (nextStride i stride) := by
      unfold nextStride
      split <;> omega
    have hsame : n.height - min cap (nextStride i stride) = n.height - nextStride i stride := by
      omega
    rw [cappedFrom, locatorFrom]
    simp only [hstride, hsame]
    split
    · rfl
    · show _ = match t.ancestor? n (n.height - nextStride i stride) with
        | some next => n.hash :: t.locatorFrom fuel (i + 1) (nextStride i stride) next
        | none => [n.hash]
      cases hnext : t.ancestor? n (n.height - nextStride i stride) with
      | none => rfl
      | some next =>
        have hlow := height_le_of_ancestor? hnext
        exact congrArg (n.hash :: ·) (ih (by omega))

/-! ## §3. The locator of a tree -/

/-- What the locator of a tree that grew from `genesis` lists, and at which heights. -/
structure LocatorShape (genesis : Header) (t : HeaderTree) (heights : List Nat) : Prop where
  spaced : Locator.Spaced t.bestNode.height heights
  falls : heights.Pairwise (· > ·)
  entries : List.Forall₂ (t.Stands t.bestNode) heights t.locator.hashes
  first : t.locator.hashes.head? = some t.bestNode.hash
  last : t.locator.hashes.getLast? = some genesis.hash
  once : t.locator.hashes.count genesis.hash = 1
  short : t.locator.hashes.length ≤ 10 + Nat.clog 2 (t.bestNode.height + 1)
  /-- Where a chain parts from the best one, a listed header stands about as near below that place
  as the best header stands above it. -/
  near : ∀ fork ≤ t.bestNode.height,
    ∃ height ∈ heights, height ≤ fork ∧ fork - height ≤ t.bestNode.height - fork
  /-- The walk ends at the first header, not for want of fuel, and 32-bit strides are enough for
  32-bit heights. -/
  ends : ∀ fuel, t.bestNode.height < fuel →
    t.locatorFrom fuel 0 1 t.bestNode = t.locator.hashes
      ∧ (t.bestNode.height < 2 ^ 32 →
        t.cappedFrom (2 ^ 32 - 1) fuel 0 1 t.bestNode = t.locator.hashes)

theorem WellFormed.node?_bestNode (h : t.WellFormed genesis) :
    t.node? t.bestNode.id = some t.bestNode := by
  rw [h.id_eq h.consistent.best]
  exact h.consistent.best

/-- The walk begins at the best header. -/
theorem WellFormed.reaches_best (h : t.WellFormed genesis) : t.Reaches t.bestNode 0 t.bestNode where
  room := Nat.zero_le _
  node := h.node?_bestNode
  height := rfl
  way := by
    rw [Nat.sub_self]
    rfl

/-- **The locator of a well-formed tree has the shape of a locator.** -/
theorem WellFormed.locatorShape (h : t.WellFormed genesis) :
    LocatorShape genesis t (heights t.bestNode.height) := by
  have hrun : ∀ fuel, t.bestNode.height < fuel →
      List.Forall₂ (t.Stands t.bestNode) (heights t.bestNode.height)
        (t.locatorFrom fuel 0 1 t.bestNode) :=
    fun fuel hfuel => h.stands_locatorFrom h.reaches_best hfuel rfl
  have hsize : t.bestNode.height < t.size :=
    Nat.lt_of_le_of_lt (h.height_le _ h.node?_bestNode) (lt_size_of_node? h.node?_bestNode)
  have hentries : List.Forall₂ _ _ t.locator.hashes := hrun t.size hsize
  have hlast : t.locator.hashes.getLast? = some genesis.hash := h.getLast?_of_entries hentries
  refine {
    spaced := Locator.spaced_heights _
    falls := Locator.pairwise_heights _
    entries := hentries
    first := head?_of_entries hentries
    last := hlast
    once := List.count_eq_one_of_mem (h.nodup_of_entries hentries) (List.mem_of_getLast? hlast)
    short := ?_
    near := fun _ => Locator.exists_near
    ends := ?_ }
  · rw [← hentries.length_eq]
    exact Locator.length_heights_le _
  · intro fuel hfuel
    have hsame : t.locatorFrom fuel 0 1 t.bestNode = t.locator.hashes :=
      (h.stands_biUnique _).2.forall₂ (hrun fuel hfuel) hentries
    refine ⟨hsame, fun hwords => ?_⟩
    rw [← hsame]
    show t.cappedFrom (2 ^ 32 - 1) fuel 0 (min (2 ^ 32 - 1) 1) t.bestNode = _
    exact cappedFrom_eq (by omega)

/-- **Whatever happened to a tree, and whichever header is the best, its locator has the shape of a
locator**: it lists headers of the best chain at the heights that the strides call for, from the
best one to the first, which stands in it once. -/
theorem locator_shape (genesis : Header) (changes : List Change) :
    ∃ heights, LocatorShape genesis ((ofGenesis genesis).after changes) heights :=
  ⟨_, (wellFormed_after (wellFormed_ofGenesis genesis) changes).locatorShape⟩

end HeaderTree

end HeaderPeer
