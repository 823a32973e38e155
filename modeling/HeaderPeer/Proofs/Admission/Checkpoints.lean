/-
  HeaderPeer.Proofs.Admission.Checkpoints — what the rules that let headers in still say of them
  once they are in the tree.

  The rules judge a header at the height above its parent, and that is the height it is given.  A
  header at a checkpoint has the right hash; all others have a version and work that are good
  enough.  As hashes are unique in a tree, one node at most stands at the height of a checkpoint,
  and all branches that reach so high go through it.

  Main statement: `reachable_admitted`.
-/
import HeaderPeer.Proofs.Admission.Reachable
import HeaderPeer.Proofs.HeaderTree.Ancestor
import HeaderPeer.Proofs.Rule.Header

namespace HeaderPeer.Admission

variable {params : Params} {t : HeaderTree}

/-! ## §1. Nodes -/

/-- Every node but the first may stand where it stands. -/
def Admitted (params : Params) (t : HeaderTree) : Prop :=
  ∀ {id n}, t.node? id = some n → id ≠ 0 → params.Admits n.height n.header

/-- A header that is taken in by the usual rules has a place that it may stand at. -/
theorem admitted_accept {now : Int64} {header : Header} {i : HeaderTree.Insertion}
    (hwf : t.WellFormed params.genesis) (ht : Admitted params t)
    (h : (standard params).accept now t header = .ok i) : Admitted params i.tree := by
  rcases accept_cases h with ⟨-, -, hsame⟩ | ⟨hnew, -, parent, hparent, -, htree, hchecked⟩
  · rw [hsame]
    exact ht
  · -- the hash of the first header is known from the start, so a new header was put to the rules
    have hother : header.hash ≠ params.genesisHash := by
      intro hgenesis
      rw [hgenesis, Params.genesisHash, hwf.find?_genesis] at hnew
      cases hnew
    obtain ⟨f, hpass⟩ := hchecked hother
    obtain ⟨parent', hparent', hadmits⟩ := HeaderTrial.admits_of_pass hpass
    -- the parent that the rules found is the one that the header is put above
    have hsame : some parent = some parent' := hparent.symm.trans hparent'
    cases hsame
    intro id n hn hid
    have hnodes := (highest_keepsNodes (t.push parent header).tree i.node).1
    have hnode : (t.push parent header).tree.node? id = some n := by
      rw [htree] at hn
      rw [HeaderTree.node?, ← hnodes]
      exact hn
    rw [HeaderTree.node?_push] at hnode
    split at hnode
    · cases hnode
      exact hadmits
    · exact ht hnode hid

theorem reachable_sound (h : (standard params).Reachable t) :
    t.WellFormed params.genesis ∧ Admitted params t := by
  refine h.invariant (P := fun t => t.WellFormed params.genesis ∧ Admitted params t) ?_ ?_
  · refine ⟨HeaderTree.wellFormed_ofGenesis params.genesis, ?_⟩
    intro id n hn hid
    exact absurd (Nat.lt_one_iff.1 (HeaderTree.lt_size_of_node? hn)) hid
  · intro now t header i ht hi
    exact ⟨wellFormed_accept highest_keepsNodes ht.1 hi, admitted_accept ht.1 ht.2 hi⟩

/-! ## §2. Branches -/

/-- A node at the height of a checkpoint is the one with its hash. -/
theorem find?_of_checkpoint (hwf : t.WellFormed params.genesis) (ht : Admitted params t)
    {id : Nat} {n : TreeNode} {hash : Word256} (hn : t.node? id = some n) (hpos : 0 < n.height)
    (hat : params.checkpoints.at? n.height = some hash) : t.find? hash = some n := by
  have hhash : n.hash = hash := (ht hn (hwf.ne_zero_of_pos hn hpos)).checkpoint hash hat
  rw [← hhash]
  exact hwf.find?_of_node? hn

/-- Every branch that reaches the height of a checkpoint goes through it.  The induction is on the
number of the node at its end. -/
theorem ancestor?_of_checkpoint (hwf : t.WellFormed params.genesis) (ht : Admitted params t)
    {height : Nat} {hash : Word256} (hpos : 0 < height)
    (hat : params.checkpoints.at? height = some hash) :
    ∀ (id : Nat) {n : TreeNode}, t.node? id = some n → height ≤ n.height →
      ∃ m, t.ancestor? n height = some m ∧ m.height = height ∧ t.find? hash = some m := by
  intro id
  induction id using Nat.strongRecOn with
  | ind id ih =>
    intro n hn hle
    by_cases heq : height = n.height
    · subst heq
      exact ⟨n, HeaderTree.ancestor?_self hwf n, rfl, find?_of_checkpoint hwf ht hn hpos hat⟩
    · -- the node stands above the checkpoint, and its parent not below it
      obtain ⟨p, hp, hpnode, hbefore, hheight⟩ := hwf.parent_of_pos hn (by omega)
      rw [hwf.id_eq hn] at hbefore
      rw [HeaderTree.ancestor?_of_lt hwf hn hp (by omega)]
      exact ih p.id hbefore hpnode (by omega)

/-! ## §3. All runs -/

/-- **What the rules ask for holds of every node of every tree that can be reached.**  All nodes
but the first have the hash of the checkpoint at their height or, where there is none, a good
version and enough work for an allowed target; all branches that reach the height of a checkpoint go
through the node with its hash, and no other node stands there. -/
theorem reachable_admitted (params : Params) {t : HeaderTree}
    (h : (standard params).Reachable t) :
    (∀ id n hash, t.node? id = some n → id ≠ 0 → params.checkpoints.at? n.height = some hash →
        n.hash = hash)
      ∧ (∀ id n, t.node? id = some n → id ≠ 0 → params.checkpoints.at? n.height = none →
        params.minHeaderVersion ≤ n.header.version
          ∧ ∃ target, n.header.bits.target? = some target ∧ target ≤ params.powLimit
            ∧ n.hash ≤ target)
      ∧ ∀ height hash, 1 ≤ height → params.checkpoints.at? height = some hash →
        (∀ id n, t.node? id = some n → height ≤ n.height →
          ∃ m, t.ancestor? n height = some m ∧ m.height = height ∧ t.find? hash = some m)
        ∧ ∀ i j n m, t.node? i = some n → t.node? j = some m → n.height = height →
          m.height = height → i = j := by
  obtain ⟨hwf, ht⟩ := reachable_sound h
  refine ⟨?_, ?_, ?_⟩
  · intro id n hash hn hid hat
    exact (ht hn hid).checkpoint hash hat
  · intro id n hn hid hat
    exact ⟨(ht hn hid).version hat, (ht hn hid).work hat⟩
  · intro height hash hpos hat
    refine ⟨?_, ?_⟩
    · intro id n hn hle
      exact ancestor?_of_checkpoint hwf ht hpos hat id hn hle
    · -- two nodes at this height have the same hash, and the index knows one place for it
      intro i j n m hn hm hnheight hmheight
      subst hnheight
      have hfound := find?_of_checkpoint hwf ht hn hpos hat
      rw [find?_of_checkpoint hwf ht hm (by omega) (by rw [hmheight]; exact hat)] at hfound
      cases hfound
      rw [← hwf.id_eq hn, hwf.id_eq hm]

/-- A header that names another one and has a hash, and says nothing else. -/
def bareHeader (previous hash : Word256) : Header :=
  { version := 1, previous, merkleRoot := 0, time := 0, bits := 0x207fffff, nonce := 0
    txCount := 0, hash }

/-- Parameters with a checkpoint right above the first header. -/
def guarded : Params :=
  { Params.regtest with genesis := bareHeader 0 1, checkpoints := ⟨[(1, 2)]⟩ }

/-- The tree once the header that the checkpoint asks for has come in. -/
def guardedTree : HeaderTree :=
  ((standard guarded).batch 0 (.ofGenesis guarded.genesis) ⟨[bareHeader 1 2], ⟨0, ""⟩⟩).1

theorem node?_guardedTree :
    guardedTree.node? 1
      = some { id := 1, header := bareHeader 1 2, height := 1, parent := some 0 } := by
  let t := HeaderTree.ofGenesis guarded.genesis
  have hparent : t.find? (bareHeader 1 2).previous = some t.genesis := by
    rw [HeaderTree.find?_ofGenesis]
    rfl
  have hnew : t.find? (bareHeader 1 2).hash = none := by
    rw [HeaderTree.find?_ofGenesis]
    exact if_neg (by decide)
  have hjudge : (standard guarded).judge 0 t (bareHeader 1 2) = .pass ⟨some t.genesis, true⟩ := by
    rw [judge, if_neg (by decide)]
    show HeaderTrial.check _ HeaderRule.standard _ = _
    rw [HeaderTrial.check_standard, hparent]
    rfl
  have haccept : (standard guarded).accept 0 t (bareHeader 1 2)
      = .ok { t.push t.genesis (bareHeader 1 2) with
          tree := highest (t.push t.genesis (bareHeader 1 2)).tree
            (t.push t.genesis (bareHeader 1 2)).node } := by
    simp only [accept, hjudge, place, HeaderTree.insert, hnew, hparent, HeaderTree.push_fresh,
      if_true]
    rfl
  rw [guardedTree, batch_fst]
  show (run (standard guarded) 0 [bareHeader 1 2] (.start t)).1.tree.node? 1 = _
  rw [run, Tally.start, haccept]
  rfl

/-- A branch through the checkpoint, as the rules let it in. -/
theorem guardedTree_admitted :
    (standard guarded).Reachable guardedTree
      ∧ ∃ n, guardedTree.node? 1 = some n ∧ n.height = 1 ∧ n.hash = 2 := by
  have hreach : (standard guarded).Reachable guardedTree :=
    .batch 0 ⟨[bareHeader 1 2], ⟨0, ""⟩⟩ .refl
  refine ⟨hreach, _, node?_guardedTree, rfl, ?_⟩
  exact (reachable_admitted guarded hreach).1 1 _ 2 node?_guardedTree (by decide) rfl

end HeaderPeer.Admission
