/-
  HeaderPeer.Proofs.Rule.Witness — no verdict on a block depends on the witnesses in it.

  The commitment in the header covers the ids of the transactions, and the ids leave the witnesses
  out, so two copies of one block may come with different witnesses.  If one of the copies passed and
  the other did not, whoever passes a block on could decide what becomes of it.  A rule that says the
  same of a block and of what is left of it without witnesses is `Blind`; all the usual rules are,
  and so is every list of blind rules.

  Main statements:
    * `StandardRule.blind` — the usual rules do not see witnesses.
    * `check_bare` — neither do any rules of this kind in any order.
    * `witnesses_do_not_matter` — whatever differs in the witnesses only is judged alike.
-/
import HeaderPeer.Proofs.Rule.Access
import HeaderPeer.Proofs.Tx.Bare

namespace HeaderPeer

open Wire

/-! ## §1. Blocks without witnesses -/

namespace Block

/-- Two blocks whose transactions differ at most in their witnesses and in the ids that cover
them. -/
structure SameButWitness (b b' : Block) : Prop where
  header : b.header = b'.header
  txs : List.Forall₂ Tx.SameButWitness b.txs b'.txs

/-- The block without the witnesses in it. -/
def bare (b : Block) : Block := { b with txs := b.txs.map Tx.bare }

theorem bare_eq_iff {b b' : Block} : b.bare = b'.bare ↔ b.SameButWitness b' := by
  have htxs : b.txs.map Tx.bare = b'.txs.map Tx.bare
      ↔ List.Forall₂ Tx.SameButWitness b.txs b'.txs := by
    simp only [map_eq_map_iff_forall₂, Tx.bare_eq_iff]
  unfold bare
  constructor
  · intro h
    obtain ⟨hheader, hsame⟩ := Block.mk.inj h
    exact ⟨hheader, htxs.1 hsame⟩
  · intro h
    rw [h.header, htxs.2 h.txs]

theorem txids_bare (b : Block) : b.bare.txids = b.txids := by
  show (b.txs.map Tx.bare).map Tx.txid = b.txs.map Tx.txid
  rw [List.map_map]
  rfl

theorem strippedSize_bare (b : Block) : b.bare.strippedSize = b.strippedSize := by
  have htxs : (Codec.write .stripped (b.txs.map Tx.bare) : Put) = Codec.write .stripped b.txs :=
    Put.list_map (Codec.write .stripped) (Tx.write_bare rfl) b.txs
  show ((_ ++ Codec.write .stripped (b.txs.map Tx.bare) : Put).run .empty).1 = _
  rw [htxs]
  rfl

/-- Computing the hashes anew does not bring the witnesses in. -/
theorem SameButWitness.rehash {b b' : Block} (h : b.SameButWitness b') (hasher : Hasher) :
    (b.rehash hasher).SameButWitness (b'.rehash hasher) where
  header := congrArg (Header.rehash hasher) h.header
  txs := by
    show List.Forall₂ _ (b.txs.map _) (b'.txs.map _)
    rw [List.forall₂_map_left_iff, List.forall₂_map_right_iff]
    exact h.txs.imp fun _ _ htx => htx.rehash hasher

end Block

/-! ## §2. Rules that do not see witnesses -/

/-- The trial of the block without the witnesses in it. -/
def BlockTrial.bare (t : BlockTrial) : BlockTrial := { t with block := t.block.bare }

/-- The rule says the same of a block and of what is left of it without witnesses. -/
def BlockRule.Blind (r : BlockRule) : Prop := ∀ t : BlockTrial, r.check t.bare = r.check t

namespace StandardRule

theorem merkleRoot_blind : BlockRule.merkleRoot.Blind := by
  intro t
  unfold BlockRule.merkleRoot
  simp only [BlockTrial.bare, Block.txids_bare]
  rfl

theorem size_blind : BlockRule.size.Blind := by
  intro t
  have hcount : t.block.bare.txs.length = t.block.txs.length := List.length_map _
  unfold BlockRule.size
  simp only [BlockTrial.bare, Block.strippedSize_bare, hcount]

theorem coinbase_blind : BlockRule.coinbase.Blind := by
  intro t
  obtain ⟨⟨header, txs⟩, params, hasher⟩ := t
  cases txs with
  | nil => rfl
  | cons first rest =>
    have hfirst : Option.filter Tx.isCoinbase (some first.bare)
        = (Option.filter Tx.isCoinbase (some first)).map Tx.bare := by
      rw [Option.filter_some, Option.filter_some, Tx.isCoinbase_bare]
      split <;> rfl
    have hrest : (rest.map Tx.bare).any Tx.isCoinbase = rest.any Tx.isCoinbase := by
      rw [List.any_map]
      exact congrArg rest.any (funext Tx.isCoinbase_bare)
    show (if (Option.filter Tx.isCoinbase (some first.bare)).isNone then _
      else if (rest.map Tx.bare).any Tx.isCoinbase then _ else _) = _
    rw [hfirst, hrest, Option.isNone_map]
    rfl

theorem transactions_blind : BlockRule.transactions.Blind := by
  intro t
  have hone : ∀ tx : Tx, BlockRule.checkTx t.params tx.bare = BlockRule.checkTx t.params tx := by
    intro tx
    rw [BlockRule.checkTx, BlockRule.checkTx, Tx.check_bare]
    rfl
  show (t.block.txs.map Tx.bare).forM (BlockRule.checkTx t.params) = _
  rw [List.forM_eq_forM, List.forM_map]
  simp only [hone]
  rfl

/-- **The usual rules do not see witnesses.** -/
theorem blind (r : StandardRule) : r.rule.Blind := by
  cases r with
  | merkleRoot => exact merkleRoot_blind
  | size => exact size_blind
  | coinbase => exact coinbase_blind
  | transactions => exact transactions_blind

end StandardRule

namespace BlockTrial

/-- **Rules that do not see witnesses do not see them together**, in whatever order they come. -/
theorem check_bare {rules : List BlockRule} (h : ∀ r ∈ rules, r.Blind) (t : BlockTrial) :
    t.bare.check rules = t.check rules := by
  induction rules with
  | nil => rfl
  | cons r rules ih =>
    obtain ⟨hr, hrules⟩ := List.forall_mem_cons.1 h
    show (do r.check t.bare; t.bare.check rules) = do r.check t; t.check rules
    rw [hr t, ih hrules]

end BlockTrial

/-! ## §3. What differs in witnesses only -/

/-- Nothing that validation reads of two transactions tells them apart. -/
structure Tx.JudgedAlike (p : Params) (hasher : Hasher) (tx tx' : Tx) : Prop where
  check : tx.check p = tx'.check p
  totalOutput : tx.totalOutput? = tx'.totalOutput?
  isCoinbase : tx.isCoinbase = tx'.isCoinbase
  strippedSize : tx.strippedSize = tx'.strippedSize
  /-- In particular the ids that are computed of them are the same. -/
  rehash : (tx.rehash hasher).SameButWitness (tx'.rehash hasher)

/-- Every verdict on two blocks is the same, down to what is reported: a fault holds all that its
report shows. -/
structure Block.JudgedAlike (p : Params) (hasher : Hasher) (b b' : Block) : Prop where
  rule : ∀ r : StandardRule, r.rule.check ⟨b, p, hasher⟩ = r.rule.check ⟨b', p, hasher⟩
  rules : ∀ rs : List StandardRule,
    BlockTrial.check (rs.map StandardRule.rule) ⟨b, p, hasher⟩
      = BlockTrial.check (rs.map StandardRule.rule) ⟨b', p, hasher⟩
  standard : BlockTrial.check BlockRule.standard ⟨b, p, hasher⟩
    = BlockTrial.check BlockRule.standard ⟨b', p, hasher⟩
  strippedSize : b.strippedSize = b'.strippedSize
  rehash : (b.rehash hasher).SameButWitness (b'.rehash hasher)

theorem Tx.SameButWitness.judgedAlike {tx tx' : Tx} (h : tx.SameButWitness tx') (p : Params)
    (hasher : Hasher) : tx.JudgedAlike p hasher tx' := by
  have hbare : tx.bare = tx'.bare := Tx.bare_eq_iff.2 h
  refine ⟨?_, ?_, ?_, ?_, h.rehash hasher⟩
  · rw [← Tx.check_bare, hbare, Tx.check_bare]
  · rw [← Tx.totalOutput?_bare, hbare, Tx.totalOutput?_bare]
  · rw [← Tx.isCoinbase_bare, hbare, Tx.isCoinbase_bare]
  · rw [← Tx.strippedSize_bare, hbare, Tx.strippedSize_bare]

theorem Block.SameButWitness.judgedAlike {b b' : Block} (h : b.SameButWitness b') (p : Params)
    (hasher : Hasher) : b.JudgedAlike p hasher b' := by
  have hbare : b.bare = b'.bare := Block.bare_eq_iff.2 h
  -- a trial of either block is judged like the trial of what they have in common
  have hcheck : ∀ rs : List StandardRule,
      BlockTrial.check (rs.map StandardRule.rule) ⟨b, p, hasher⟩
        = BlockTrial.check (rs.map StandardRule.rule) ⟨b', p, hasher⟩ := by
    intro rs
    have hblind : ∀ r ∈ rs.map StandardRule.rule, r.Blind :=
      List.forall_mem_map.2 fun r _ => r.blind
    rw [← BlockTrial.check_bare hblind, ← BlockTrial.check_bare hblind ⟨b', p, hasher⟩]
    show BlockTrial.check _ ⟨b.bare, p, hasher⟩ = BlockTrial.check _ ⟨b'.bare, p, hasher⟩
    rw [hbare]
  refine ⟨fun r => ?_, hcheck, hcheck [.merkleRoot, .size, .coinbase, .transactions], ?_,
    h.rehash hasher⟩
  · rw [← r.blind, ← r.blind ⟨b', p, hasher⟩]
    show r.rule.check ⟨b.bare, p, hasher⟩ = r.rule.check ⟨b'.bare, p, hasher⟩
    rw [hbare]
  · rw [← Block.strippedSize_bare, hbare, Block.strippedSize_bare]

/-- **Witnesses do not matter.**  Blocks that differ in nothing else get the same verdict from every
rule, from the rules in any order and from the usual ones, for all parameters and digests; and
transactions that differ in nothing else are the same to every check, and in size, total and id. -/
theorem witnesses_do_not_matter (p : Params) (hasher : Hasher) {b b' : Block} {tx tx' : Tx}
    (hb : b.SameButWitness b') (htx : tx.SameButWitness tx') :
    b.JudgedAlike p hasher b' ∧ tx.JudgedAlike p hasher tx' :=
  ⟨hb.judgedAlike p hasher, htx.judgedAlike p hasher⟩

/-- A coinbase with something on its witness stack, or nothing. -/
def Tx.coinbaseWith (witness : Witness) (wtxid : Word256) : Tx where
  version := 1
  inputs := [⟨.null, [0x03, 0x01, 0x00], 0xffffffff, witness⟩]
  outputs := [⟨5000000000, [0x51]⟩]
  lockTime := 0
  txid := 7
  wtxid := wtxid

/-- A block of one transaction with the id 7. -/
def Block.lone (tx : Tx) : Block where
  header :=
    { version := 1, previous := 0, merkleRoot := 7, time := 0, bits := 0x207fffff, nonce := 0
      txCount := 0, hash := 0 }
  txs := [tx]

/-- A coinbase that lost its reserved value is another one, and so is the block around it; no verdict
shows it. -/
theorem lost_reserved_value :
    Block.lone (.coinbaseWith ⟨[[0, 0]]⟩ 8) ≠ Block.lone (.coinbaseWith .none 7)
      ∧ (Block.lone (.coinbaseWith ⟨[[0, 0]]⟩ 8)).JudgedAlike .regtest .doubleSha256
          (Block.lone (.coinbaseWith .none 7))
      ∧ (Tx.coinbaseWith ⟨[[0, 0]]⟩ 8).JudgedAlike .regtest .doubleSha256
          (.coinbaseWith .none 7) := by
  have htx : (Tx.coinbaseWith ⟨[[0, 0]]⟩ 8).SameButWitness (.coinbaseWith .none 7) :=
    ⟨rfl, .cons ⟨rfl, rfl, rfl⟩ .nil, rfl, rfl, rfl⟩
  have hblock : (Block.lone (.coinbaseWith ⟨[[0, 0]]⟩ 8)).SameButWitness
      (.lone (.coinbaseWith .none 7)) :=
    ⟨rfl, .cons htx .nil⟩
  exact ⟨by decide, witnesses_do_not_matter .regtest .doubleSha256 hblock htx⟩

end HeaderPeer
