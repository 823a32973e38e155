/-
  HeaderPeer.Tx.Basic — transactions.

  A transaction spends outputs of earlier ones, named by outpoints, and creates outputs of its own.
  An input may carry a witness, a stack of byte strings that the transaction's id leaves out.
-/
import HeaderPeer.Word256.Basic

namespace HeaderPeer

/-! ## §1. Parts -/

/-- An output of a transaction, named by the transaction's id and the output's place. -/
structure Outpoint where
  hash : Word256
  index : UInt32
  deriving DecidableEq, Hashable, Repr

namespace Outpoint

/-- The outpoint that names no output; it marks the input that creates new coins. -/
def null : Outpoint := ⟨0, 0xffffffff⟩

def isNull (o : Outpoint) : Bool := o = null

end Outpoint

/-- The stack of byte strings that satisfies the script of a spent output. -/
structure Witness where
  items : List Bytes
  deriving DecidableEq, Repr

namespace Witness

def none : Witness := ⟨[]⟩

def isEmpty (w : Witness) : Bool := w.items.isEmpty

end Witness

/-- One output spent by a transaction. -/
structure TxInput where
  previous : Outpoint
  script : Bytes
  sequence : UInt32
  witness : Witness
  deriving DecidableEq, Repr

/-- One output created by a transaction. -/
structure TxOutput where
  /-- The amount, in the smallest unit. -/
  value : Int64
  script : Bytes
  deriving DecidableEq, Repr

/-! ## §2. Transactions -/

/-- A transaction, together with its two ids. -/
structure Tx where
  version : Int32
  inputs : List TxInput
  outputs : List TxOutput
  lockTime : UInt32
  /-- The digest of the form without witness data. -/
  txid : Word256
  /-- The digest of the form with witness data. -/
  wtxid : Word256
  deriving DecidableEq, Repr

/-- The sum of two amounts, if it fits an amount. -/
def addAmounts? (a b : Int64) : Option Int64 :=
  let sum := a.toInt + b.toInt
  if Int64.minValue.toInt ≤ sum ∧ sum ≤ Int64.maxValue.toInt then some (Int64.ofInt sum) else none

namespace Tx

/-- Whether the transaction creates new coins: its only input spends the null outpoint. -/
def isCoinbase (tx : Tx) : Bool :=
  match tx.inputs with
  | [input] => input.previous.isNull
  | _ => false

/-- Whether any input carries a witness that is not empty. -/
def hasWitness (tx : Tx) : Bool := tx.inputs.any fun input => !input.witness.isEmpty

/-- The sum of the outputs, added up in order, if every partial sum fits an amount. -/
def totalOutput? (tx : Tx) : Option Int64 :=
  tx.outputs.foldlM (fun total output => addAmounts? total output.value) 0

end Tx

end HeaderPeer
