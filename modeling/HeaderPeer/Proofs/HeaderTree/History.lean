/-
  HeaderPeer.Proofs.HeaderTree.History — what any history of changes makes of a tree.

  A tree is changed in two ways: a header is put in, which may fail, and the best header is moved to
  a node that is there.  Seen from outside a tree is the list of its headers.  Of this list alone it
  can be told whether a header will be kept (`keep`): if its hash is a new one and the hash that it
  names is there.  Everything else, the heights, the parents and the index, follows from the list by
  the invariant that every change preserves.

  Main statements:
    * `headers_after` — the headers of a tree are those that the list of headers says are kept.
    * `consistent_after` — whatever happened to a tree, its parts fit, and it only ever grows.
-/
import HeaderPeer.Proofs.HeaderTree.WellFormed
import Mathlib.Algebra.Group.Nat.Defs
import Mathlib.Data.List.Nodup

namespace HeaderPeer.HeaderTree

/-! ## §1. The headers of a tree -/

/-- The headers of a tree, in the order of their numbers. -/
def headers (t : HeaderTree) : List Header := t.nodes.toList.map TreeNode.header

/-- The hashes of the headers, in the same order. -/
def hashes (t : HeaderTree) : List Word256 := t.headers.map Header.hash

theorem headers_ofGenesis (genesis : Header) : (ofGenesis genesis).headers = [genesis] := rfl

@[simp] theorem length_headers (t : HeaderTree) : t.headers.length = t.size := by
  simp [headers, size]

@[simp] theorem headers_setBest (t : HeaderTree) (id : Nat) :
    (t.setBest id).headers = t.headers := by
  rw [headers, nodes_setBest, headers]

theorem headers_push (t : HeaderTree) (parent : TreeNode) (header : Header) :
    (t.push parent header).tree.headers = t.headers ++ [header] := by
  show (t.nodes.push (t.childOf parent header)).toList.map TreeNode.header = _
  rw [Array.toList_push, List.map_append]
  rfl

theorem headers_getElem? (t : HeaderTree) (id : Nat) :
    t.headers[id]? = (t.node? id).map TreeNode.header := by
  rw [headers, List.getElem?_map, Array.getElem?_toList, node?]

theorem hashes_getElem? (t : HeaderTree) (id : Nat) :
    t.hashes[id]? = (t.node? id).map TreeNode.hash := by
  rw [hashes, List.getElem?_map, headers_getElem?, Option.map_map]
  rfl

section

variable {genesis : Header} {t : HeaderTree}

/-- A hash is found exactly if a header carries it. -/
theorem WellFormed.mem_hashes_iff (h : t.WellFormed genesis) {hash : Word256} :
    hash ∈ t.hashes ↔ ∃ n, t.find? hash = some n := by
  rw [List.mem_iff_getElem?]
  constructor
  · rintro ⟨id, hid⟩
    rw [hashes_getElem?, Option.map_eq_some_iff] at hid
    obtain ⟨n, hn, rfl⟩ := hid
    exact ⟨n, h.find?_of_node? hn⟩
  · rintro ⟨n, hn⟩
    obtain ⟨hnode, hhash⟩ := h.of_find? hn
    refine ⟨n.id, ?_⟩
    rw [hashes_getElem?, hnode, Option.map_some, hhash]

theorem WellFormed.find?_eq_none_iff (h : t.WellFormed genesis) {hash : Word256} :
    t.find? hash = none ↔ hash ∉ t.hashes := by
  rw [h.mem_hashes_iff, Option.eq_none_iff_forall_ne_some]
  exact not_exists.symm

/-- No two headers have the same hash. -/
theorem WellFormed.hashes_nodup (h : t.WellFormed genesis) : t.hashes.Nodup := by
  rw [List.nodup_iff_getElem?_ne_getElem?]
  intro i j hij hj heq
  have hi : i < t.hashes.length := by omega
  obtain ⟨n, hn, hnhash⟩ := Option.map_eq_some_iff.1
    ((hashes_getElem? t i).symm.trans (List.getElem?_eq_getElem hi))
  obtain ⟨m, hm, hmhash⟩ := Option.map_eq_some_iff.1
    ((hashes_getElem? t j).symm.trans (List.getElem?_eq_getElem hj))
  -- the two places hold one node, which knows its own place
  rw [List.getElem?_eq_getElem hi, List.getElem?_eq_getElem hj, Option.some_inj] at heq
  have hsame : n = m := h.eq_of_hash_eq hn hm (by rw [hnhash, hmhash, heq])
  subst hsame
  have hplace : i = j := (h.id_eq hn).symm.trans (h.id_eq hm)
  omega

/-- Every node stands no higher than its number.  The induction is on the number; a parent has a
smaller one and stands one step lower. -/
theorem WellFormed.height_le (h : t.WellFormed genesis) :
    ∀ (id : Nat) {n : TreeNode}, t.node? id = some n → n.height ≤ id := by
  intro id
  induction id using Nat.strongRecOn with
  | ind id ih =>
    intro n hn
    by_cases hroot : id = 0
    · subst hroot
      rw [h.root] at hn
      cases hn
      exact Nat.le_refl 0
    · obtain ⟨p, hp, hbefore, -, hheight⟩ := h.parent hn hroot
      obtain ⟨pid, -, hpnode⟩ := Option.bind_eq_some_iff.1 hp
      rw [← h.id_eq hpnode] at hpnode
      have hlow := ih p.id hbefore hpnode
      omega

end

/-! ## §2. Putting a header in -/

section

variable {genesis : Header} {t : HeaderTree} {header : Header}

/-- A header whose hash is known is not put in again. -/
theorem insert_of_known {n : TreeNode} (h : t.find? header.hash = some n) :
    t.insert header = .ok { node := n, fresh := false, tree := t } := by
  rw [insert, h]

theorem insert_of_new {parent : TreeNode} (hnew : t.find? header.hash = none)
    (hparent : t.find? header.previous = some parent) :
    t.insert header = .ok (t.push parent header) := by
  simp only [insert, hnew, hparent]

theorem insert_of_orphan (hnew : t.find? header.hash = none)
    (hparent : t.find? header.previous = none) :
    t.insert header = .error { hash := header.hash, previous := header.previous } := by
  simp only [insert, hnew, hparent]

/-- A header is refused exactly if neither its hash nor the one that it names is there. -/
theorem WellFormed.insert_eq_error_iff (h : t.WellFormed genesis) {e : MissingParent} :
    t.insert header = .error e ↔
      header.hash ∉ t.hashes ∧ header.previous ∉ t.hashes
        ∧ e = { hash := header.hash, previous := header.previous } := by
  rw [← h.find?_eq_none_iff, ← h.find?_eq_none_iff]
  constructor
  · intro herror
    cases hnew : t.find? header.hash with
    | some n =>
      rw [insert_of_known hnew] at herror
      cases herror
    | none =>
      cases hparent : t.find? header.previous with
      | some parent =>
        rw [insert_of_new hnew hparent] at herror
        cases herror
      | none =>
        rw [insert_of_orphan hnew hparent] at herror
        cases herror
        exact ⟨rfl, rfl, rfl⟩
  · rintro ⟨hnew, hparent, rfl⟩
    exact insert_of_orphan hnew hparent

end

/-! ## §3. Histories -/

/-- Something that is done to a tree. -/
inductive Change where
  /-- A header is put in. -/
  | insert (header : Header)
  /-- The best header is moved. -/
  | setBest (id : Nat)
  deriving DecidableEq, Repr

/-- The tree that a change leaves.  A header that cannot be put in changes nothing. -/
def apply (t : HeaderTree) : Change → HeaderTree
  | .insert header =>
    match t.insert header with
    | .ok i => i.tree
    | .error _ => t
  | .setBest id => t.setBest id

/-- The tree that a history of changes leaves. -/
def after (t : HeaderTree) (changes : List Change) : HeaderTree := changes.foldl apply t

/-- The headers that are stored after a change, told from those stored before: a header is added at
the end if its hash is a new one and the hash that it names is there. -/
def keep (stored : List Header) : Change → List Header
  | .insert header =>
    let known := stored.map Header.hash
    if header.hash ∉ known ∧ header.previous ∈ known then stored ++ [header] else stored
  | .setBest _ => stored

section

variable {genesis : Header} {t : HeaderTree}

/-- The three outcomes of a change: nothing but the best header is different, or the tree has one
more leaf. -/
theorem apply_cases (t : HeaderTree) (change : Change) :
    (∃ id, change = .setBest id ∧ t.apply change = t.setBest id)
      ∨ (∃ header, change = .insert header ∧ t.apply change = t
          ∧ (t.find? header.hash = none → t.find? header.previous = none))
      ∨ ∃ header parent, change = .insert header ∧ t.find? header.hash = none
          ∧ t.find? header.previous = some parent
          ∧ t.apply change = (t.push parent header).tree := by
  cases change with
  | setBest id => exact .inl ⟨id, rfl, rfl⟩
  | insert header =>
    refine .inr ?_
    cases hnew : t.find? header.hash with
    | some n =>
      refine .inl ⟨header, rfl, ?_, fun hnone => ?_⟩
      · simp only [apply, insert_of_known hnew]
      · rw [hnew] at hnone
        cases hnone
    | none =>
      cases hparent : t.find? header.previous with
      | some parent =>
        refine .inr ⟨header, parent, rfl, hnew, hparent, ?_⟩
        simp only [apply, insert_of_new hnew hparent]
      | none =>
        refine .inl ⟨header, rfl, ?_, fun _ => hparent⟩
        simp only [apply, insert_of_orphan hnew hparent]

theorem wellFormed_apply (h : t.WellFormed genesis) (change : Change) :
    (t.apply change).WellFormed genesis := by
  cases change with
  | insert header =>
    cases hinsert : t.insert header with
    | ok i =>
      simp only [apply, hinsert]
      exact wellFormed_insert h hinsert
    | error cause =>
      simp only [apply, hinsert]
      exact h
  | setBest id => exact wellFormed_setBest h id

/-- Nodes keep their places, and what is in them. -/
theorem node?_apply {id : Nat} {n : TreeNode} (h : t.node? id = some n) (change : Change) :
    (t.apply change).node? id = some n := by
  rcases apply_cases t change with ⟨best, -, heq⟩ | ⟨-, -, heq, -⟩ | ⟨header, parent, -, -, -, heq⟩
  · rw [heq, node?, nodes_setBest]
    exact h
  · rw [heq]
    exact h
  · rw [heq]
    exact node?_push_of_some h parent header

theorem headers_apply (h : t.WellFormed genesis) (change : Change) :
    (t.apply change).headers = keep t.headers change := by
  rcases apply_cases t change with
    ⟨id, rfl, heq⟩ | ⟨header, rfl, heq, hother⟩ | ⟨header, parent, rfl, hnew, hp, heq⟩
  · rw [heq, headers_setBest]
    rfl
  · -- the header is known, or what it names is not
    have hstay : ¬ (header.hash ∉ t.hashes ∧ header.previous ∈ t.hashes) := by
      rintro ⟨hnew, hnamed⟩
      exact h.find?_eq_none_iff.1 (hother (h.find?_eq_none_iff.2 hnew)) hnamed
    rw [heq]
    exact (if_neg hstay).symm
  · have hnew := h.find?_eq_none_iff.1 hnew
    have hp := h.mem_hashes_iff.2 ⟨parent, hp⟩
    rw [heq, headers_push]
    exact (if_pos ⟨hnew, hp⟩).symm

theorem wellFormed_after (h : t.WellFormed genesis) (changes : List Change) :
    (t.after changes).WellFormed genesis := by
  induction changes generalizing t with
  | nil => exact h
  | cons change changes ih => exact ih (wellFormed_apply h change)

/-- **The headers of a tree are those that the headers themselves say are kept.** -/
theorem headers_after (h : t.WellFormed genesis) (changes : List Change) :
    (t.after changes).headers = changes.foldl keep t.headers := by
  induction changes generalizing t with
  | nil => rfl
  | cons change changes ih =>
    show ((t.apply change).after changes).headers = changes.foldl keep (keep t.headers change)
    rw [ih (wellFormed_apply h change), headers_apply h]

end

/-! ## §4. Whatever happened to a tree -/

/-- The parts of a tree fit: the nodes and the headers, the index, the heights, the best header. -/
structure Consistent (genesis : Header) (t : HeaderTree) : Prop extends
    t.WellFormed genesis where
  size : t.headers.length = t.size
  header : ∀ {id n}, t.node? id = some n → t.headers[id]? = some n.header
  /-- No hash stands in two places. -/
  unique : t.hashes.Nodup
  height : ∀ {id n}, t.node? id = some n → n.height ≤ id
  /-- With fewer than 2^32 nodes the height of one more node is a 32-bit number. -/
  bounded : ∀ {id n}, t.size < 2 ^ 32 → t.node? id = some n → n.height + 1 < 2 ^ 32
  best : t.node? t.best = some t.bestNode

theorem WellFormed.consistent {genesis : Header} {t : HeaderTree} (h : t.WellFormed genesis) :
    Consistent genesis t where
  toWellFormed := h
  size := length_headers t
  header := by
    intro id n hn
    rw [headers_getElem?, hn, Option.map_some]
  unique := h.hashes_nodup
  height := by
    intro id n hn
    exact h.height_le id hn
  bounded := by
    intro id n hsize hn
    have hlow := h.height_le id hn
    have hid := lt_size_of_node? hn
    omega
  best := Array.getElem?_eq_getElem t.best_lt

/-- What can be done to a tree adds to it and takes nothing away. -/
structure OnlyGrows (t : HeaderTree) : Prop where
  /-- Nodes keep their places, whatever is done. -/
  keeps : ∀ {id n} change, t.node? id = some n → (t.apply change).node? id = some n
  /-- A header that comes again is answered with its node. -/
  known : ∀ {header n}, t.find? header.hash = some n →
    t.insert header = .ok { node := n, fresh := false, tree := t }
  /-- A new header above a known one becomes the last node, and the best header stays. -/
  new : ∀ {header parent}, header.hash ∉ t.hashes → t.find? header.previous = some parent →
    ∃ i, t.insert header = .ok i ∧ i.fresh = true ∧ i.node = t.childOf parent header
      ∧ i.tree.node? t.size = some i.node ∧ i.tree.best = t.best
  /-- A header is refused exactly if neither its hash nor the one that it names is there. -/
  refused : ∀ {header e}, t.insert header = .error e ↔
    header.hash ∉ t.hashes ∧ header.previous ∉ t.hashes
      ∧ e = { hash := header.hash, previous := header.previous }
  unchanged : ∀ {header e}, t.insert header = .error e → t.apply (.insert header) = t
  /-- Only the best header is moved, and to the node that was named. -/
  moved : ∀ {id n}, t.node? id = some n →
    (t.setBest id).bestNode = n ∧ (t.setBest id).nodes = t.nodes ∧ (t.setBest id).index = t.index

theorem bestNode_setBest {t : HeaderTree} {id : Nat} {n : TreeNode} (h : t.node? id = some n) :
    (t.setBest id).bestNode = n := by
  obtain ⟨hlt, hn⟩ := Array.getElem?_eq_some_iff.1 h
  unfold setBest
  rw [dif_pos hlt]
  exact hn

theorem WellFormed.onlyGrows {genesis : Header} {t : HeaderTree} (h : t.WellFormed genesis) :
    OnlyGrows t where
  keeps change hn := node?_apply hn change
  known := insert_of_known
  new := by
    intro header parent hnew hparent
    refine ⟨_, insert_of_new (h.find?_eq_none_iff.2 hnew) hparent, rfl, rfl, ?_, rfl⟩
    rw [node?_push, if_pos rfl]
    rfl
  refused := h.insert_eq_error_iff
  unchanged := by
    intro header e herror
    simp only [apply, herror]
  moved := by
    intro id n hn
    exact ⟨bestNode_setBest hn, nodes_setBest t id, index_setBest t id⟩

/-- **Whatever was done to a tree, its parts fit, its headers are those that were to be kept, and
all that can be done to it is to add to it.** -/
theorem consistent_after (genesis : Header) (changes : List Change) :
    Consistent genesis ((ofGenesis genesis).after changes)
      ∧ ((ofGenesis genesis).after changes).headers = changes.foldl keep [genesis]
      ∧ OnlyGrows ((ofGenesis genesis).after changes) := by
  have hstart := wellFormed_ofGenesis genesis
  have hwf := wellFormed_after hstart changes
  refine ⟨hwf.consistent, ?_, hwf.onlyGrows⟩
  rw [headers_after hstart, headers_ofGenesis]

end HeaderPeer.HeaderTree
