/-
  HeaderPeer.Proofs.Block.Size — how large headers, transactions and blocks are, and what the limit
  on the size of a block says of the transactions in it.

  Sizes are measured without witnesses, by running the writers.  Here they are added up from the
  parts.  The limit is applied twice, to the size of a whole block and to that of each transaction by
  itself, by two rules that do not know of each other.  A transaction is a part of its block, so the
  second rule never finds anything in a block that the first has let through.

  Main statements:
    * `Header.adds_insideBlock`, `Tx.adds_bare`, `Block.adds_bare` — sizes as sums.
    * `Tx.overweight_of_mem` — a transaction that is too large makes its block too large.
    * `stripped_sizes_add_up` — all of this, and what the rule on sizes says of transactions.
-/
import HeaderPeer.Proofs.Rule.Block
import HeaderPeer.Proofs.Rule.TxFaults
import HeaderPeer.Proofs.Wire.Length
import Mathlib.Algebra.Order.BigOperators.Group.List
import Mathlib.Algebra.Order.Group.Nat

namespace HeaderPeer

open Wire

variable {l : Layout}

/-! ## §1. Parts -/

/-- A header inside a block is eighty bytes long. -/
theorem Header.adds_insideBlock (l : Layout) (h : Header) :
    (Codec.write l.insideBlock h).Adds 80 := by
  have hhashes := ((Put.adds_int32LE h.version).append (Put.adds_word256 h.previous)).append
    (Put.adds_word256 h.merkleRoot)
  have hwords := ((hhashes.append (Put.adds_uint32LE h.time)).append
    (Put.adds_uint32LE h.bits)).append (Put.adds_uint32LE h.nonce)
  exact hwords.append Put.adds_nothing

theorem TxInput.adds (l : Layout) (i : TxInput) :
    (Codec.write l i).Adds (40 + countSize i.script.length + i.script.length) := by
  have houtpoint : (Codec.write l i.previous).Adds 36 :=
    (Put.adds_word256 i.previous.hash).append (Put.adds_uint32LE i.previous.index)
  have hall := (houtpoint.append (Put.adds_byteArray i.script)).append
    (Put.adds_uint32LE i.sequence)
  exact hall.of_eq (by omega)

theorem TxOutput.adds (l : Layout) (o : TxOutput) :
    (Codec.write l o).Adds (8 + countSize o.script.length + o.script.length) := by
  have hall := (Put.adds_int64LE o.value).append (Put.adds_byteArray o.script)
  exact hall.of_eq (Nat.add_assoc 8 _ _).symm

/-! ## §2. Transactions and blocks -/

/-- The size of a transaction without its witnesses, from those of its parts. -/
theorem Tx.adds_bare (hl : l.witness = false) (tx : Tx) :
    (Codec.write l tx).Adds
      (8 + countSize tx.inputs.length
        + (tx.inputs.map fun i => 40 + countSize i.script.length + i.script.length).sum
        + countSize tx.outputs.length
        + (tx.outputs.map fun o => 8 + countSize o.script.length + o.script.length).sum) := by
  have hinputs := Put.adds_list (TxInput.adds l) tx.inputs
  have houtputs := Put.adds_list (TxOutput.adds l) tx.outputs
  have hall := (((Put.adds_int32LE tx.version).append hinputs).append houtputs).append
    (Put.adds_uint32LE tx.lockTime)
  show (Tx.write l tx).Adds _
  unfold Tx.write
  rw [hl, Bool.false_and, if_neg Bool.false_ne_true]
  exact hall.of_eq (by omega)

/-- A transaction takes the bytes that its size says. -/
theorem Tx.adds_strippedSize (tx : Tx) : (Codec.write Layout.stripped tx).Adds tx.strippedSize := by
  have hadds := Tx.adds_bare (l := .stripped) rfl tx
  have hsize : tx.strippedSize = _ := (size_of_adds hadds).1
  rw [hsize]
  exact hadds

/-- The size of a block without witnesses, from those of its transactions. -/
theorem Block.adds_bare (b : Block) :
    (Codec.write Layout.stripped b).Adds
      (80 + countSize b.txs.length + (b.txs.map Tx.strippedSize).sum) := by
  have htxs := Put.adds_list Tx.adds_strippedSize b.txs
  have hall := (Header.adds_insideBlock .stripped b.header).append htxs
  exact hall.of_eq (Nat.add_assoc 80 _ _).symm

/-! ## §3. The limit -/

/-- What weighs more than something that is too heavy is too heavy. -/
theorem Params.overweight_mono {p : Params} {m n : Nat} (hle : m ≤ n)
    (h : p.overweight m = true) : p.overweight n = true := by
  have hscaled : m * p.witnessScale.toNat ≤ n * p.witnessScale.toNat := Nat.mul_le_mul_right _ hle
  rw [overweight, decide_eq_true_iff, scaledWeight] at h ⊢
  omega

/-- **A transaction that is too large makes its block too large.** -/
theorem Tx.overweight_of_mem {p : Params} {b : Block} {tx : Tx} (htx : tx ∈ b.txs)
    (h : p.overweight tx.strippedSize = true) : p.overweight b.strippedSize = true := by
  have hpart : tx.strippedSize ≤ (b.txs.map Tx.strippedSize).sum :=
    List.le_sum_of_mem (List.mem_map_of_mem htx)
  have hblock : b.strippedSize = _ := (size_of_adds (Block.adds_bare b)).1
  refine Params.overweight_mono ?_ h
  omega

/-- Only a transaction that is too large is called that. -/
theorem TxFault.eq_oversize {fault : TxFault} (h : fault.rejection.reason = "bad-txns-oversize") :
    ∃ size, fault = .oversize size := by
  cases fault with
  | oversize size => exact ⟨size, rfl⟩
  | _ => exact absurd h (by simp [rejection, Rejection.consensus])

/-- **Sizes agree with the bytes and add up.**  The size of a transaction or a block is the length of
its form without witnesses, and that of a block is what its header, its count and its transactions
take together.  So whatever the limit is, in a block that the rule on sizes lets through no
transaction is refused for its size. -/
theorem stripped_sizes_add_up :
    (∀ tx : Tx, tx.strippedSize = (encode .stripped tx).length
        ∧ tx.strippedSize = 8 + countSize tx.inputs.length
            + (tx.inputs.map fun i => 40 + countSize i.script.length + i.script.length).sum
            + countSize tx.outputs.length
            + (tx.outputs.map fun o => 8 + countSize o.script.length + o.script.length).sum)
      ∧ (∀ b : Block, b.strippedSize = (encode .stripped b).length
        ∧ b.strippedSize = 80 + countSize b.txs.length + (b.txs.map Tx.strippedSize).sum)
      ∧ ∀ t : BlockTrial, BlockRule.size.check t = .ok () →
        ∀ tx ∈ t.block.txs, ∀ fault, tx.check t.params = .error fault →
          fault.rejection.reason ≠ "bad-txns-oversize" := by
  refine ⟨?_, ?_, ?_⟩
  · intro tx
    obtain ⟨hsize, hlen⟩ := size_of_adds (Tx.adds_bare (l := .stripped) rfl tx)
    exact ⟨hsize.trans hlen.symm, hsize⟩
  · intro b
    obtain ⟨hsize, hlen⟩ := size_of_adds (Block.adds_bare b)
    exact ⟨hsize.trans hlen.symm, hsize⟩
  · intro t hok tx htx fault hfault hreason
    obtain ⟨size, rfl⟩ := TxFault.eq_oversize hreason
    have hlight : t.params.overweight t.block.strippedSize = false :=
      Params.overweight_eq_false_iff.2 (BlockRule.size_eq_ok_iff.1 hok).bytes
    -- the check finds a size wrong by the same limit by which the block was measured
    have hheavy : t.params.overweight tx.strippedSize = true := by
      cases Tx.check_eq_error_iff.1 hfault with
      | oversize _ hsize => exact not_not.1 (mt Tx.fits_iff.2 hsize)
    rw [Tx.overweight_of_mem htx hheavy] at hlight
    cases hlight

/-- A transaction that pays out less than nothing, to a script whose length takes three bytes. -/
def overdraft : Tx where
  version := 2
  inputs := [⟨⟨1, 0⟩, [], 0xffffffff, .none⟩]
  outputs := [⟨-1, List.replicate 253 0x51⟩]
  lockTime := 0
  txid := 7
  wtxid := 7

/-- The block of that transaction alone. -/
def overdrawn : BlockTrial := { BlockTrial.loneCoinbase with block.txs := [overdraft] }

/-- The rule on sizes lets the block through, so the transaction is refused for something else. -/
theorem overdrawn_not_oversize :
    overdraft.strippedSize = 315 ∧ overdrawn.block.strippedSize = 396
      ∧ BlockRule.size.check overdrawn = .ok ()
      ∧ overdraft.check .regtest = .error (.negativeOutput 0 (-1))
      ∧ (TxFault.negativeOutput 0 (-1)).rejection.reason ≠ "bad-txns-oversize" := by
  obtain ⟨htx, hblock, hlimit⟩ := stripped_sizes_add_up
  have hsize : overdraft.strippedSize = 315 := (htx overdraft).2.trans (by decide +kernel)
  have hblockSize : overdrawn.block.strippedSize = 396 := by
    have htxs : overdrawn.block.txs = [overdraft] := rfl
    rw [(hblock overdrawn.block).2, htxs, List.map_singleton, List.sum_singleton, hsize]
    decide
  have hok : BlockRule.size.check overdrawn = .ok () := by
    refine BlockRule.size_eq_ok_iff.2 ⟨List.cons_ne_nil _ _, by decide, ?_⟩
    rw [hblockSize]
    decide
  have hfault : overdraft.check .regtest = .error (.negativeOutput 0 (-1)) := by
    rw [Tx.check_eq, hsize]
    rfl
  exact ⟨hsize, hblockSize, hok, hfault,
    hlimit overdrawn hok overdraft (List.mem_singleton_self _) _ hfault⟩

end HeaderPeer
