/-
  HeaderPeer.Rule.Block — what can be checked of a block by itself.

  The rules run in order and the first that fails decides.  The usual order looks at the commitment
  to the transactions first, so that a copy damaged on the way is not taken for a block that breaks
  a rule of the network.
-/
import HeaderPeer.Block
import HeaderPeer.Rule.Tx

namespace HeaderPeer

/-! ## §1. Faults -/

inductive BlockFault where
  /-- The transaction at `position` repeats the one before it. -/
  | duplicateTx (txid : Word256) (position : Nat)
  | merkleRoot (stated computed : Word256)
  | length (count size : Nat)
  | noCoinbase
  | manyCoinbases
  | tx (txid : Word256) (fault : TxFault)
  deriving DecidableEq, Repr

/-- The report of a fault.  A fault of a transaction keeps the transaction's reason. -/
def BlockFault.rejection : BlockFault → Rejection
  | .duplicateTx txid position =>
    ⟨.mutated, "bad-txns-duplicate",
      "duplicate transaction " ++ txid.text ++ " at index " ++ toString position⟩
  | .merkleRoot stated computed =>
    ⟨.mutated, "bad-txnmrklroot",
      "merkle root mismatch: header " ++ stated.text ++ ", computed " ++ computed.text⟩
  | .length count size =>
    .consensus "bad-blk-length"
      (toString count ++ " transactions, " ++ toString size ++ " bytes")
  | .noCoinbase => .consensus "bad-cb-missing" "first tx is not coinbase"
  | .manyCoinbases => .consensus "bad-cb-multiple" "more than one coinbase"
  | .tx txid fault =>
    .consensus fault.rejection.reason
      ("transaction " ++ txid.text ++ " failed: " ++ fault.rejection.text)

/-! ## §2. Rules -/

structure BlockTrial where
  block : Block
  params : Params
  hasher : Hasher

structure BlockRule where
  name : String
  check : BlockTrial → Except BlockFault Unit

namespace BlockRule

/-- The header commits to the transactions, and the list is not one that repeats its own tail. -/
def merkleRoot : BlockRule where
  name := "merkle-root"
  check t :=
    let txids := t.block.txids
    -- the root says nothing about a list that repeats its tail, so the walk comes first
    match Merkle.duplicate? txids with
    | some position => .error (.duplicateTx (txids.getD position 0) position)
    | none =>
      let computed := Merkle.root t.hasher txids
      if computed = t.block.header.merkleRoot then .ok ()
      else .error (.merkleRoot t.block.header.merkleRoot computed)

/-- There are transactions, and neither their number nor their size weighs too much. -/
def size : BlockRule where
  name := "block-size"
  check t :=
    let count := t.block.txs.length
    let size := t.block.strippedSize
    if count = 0 ∨ t.params.overweight count ∨ t.params.overweight size then
      .error (.length count size)
    else .ok ()

/-- The first transaction creates new coins, and no other does. -/
def coinbase : BlockRule where
  name := "coinbase"
  check t :=
    if t.block.coinbase?.isNone then .error .noCoinbase
    else if t.block.txs.tail.any Tx.isCoinbase then .error .manyCoinbases
    else .ok ()

/-- A transaction by itself, as part of a block. -/
def checkTx (p : Params) (tx : Tx) : Except BlockFault Unit :=
  match tx.check p with
  | .ok () => .ok ()
  | .error fault => .error (.tx tx.txid fault)

def transactions : BlockRule where
  name := "check-transactions"
  check t := t.block.txs.forM (checkTx t.params)

def standard : List BlockRule := [merkleRoot, size, coinbase, transactions]

end BlockRule

/-- Runs rules in order, up to the first that fails. -/
def BlockTrial.check (rules : List BlockRule) (t : BlockTrial) : Except BlockFault Unit :=
  rules.forM fun rule => rule.check t

end HeaderPeer
