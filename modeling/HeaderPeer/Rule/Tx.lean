/-
  HeaderPeer.Rule.Tx — what can be checked of a transaction by itself.

  The checks run in a fixed order and the first that fails decides.  Which outputs a transaction
  spends is not looked at beyond their names.
-/
import HeaderPeer.Network
import HeaderPeer.Rule.Rejection
import HeaderPeer.Tx.Wire
import HeaderPeer.Word256.Text
import Std.Data.HashSet

namespace HeaderPeer

/-! ## §1. Faults -/

inductive TxFault where
  | noInputs
  | noOutputs
  | oversize (size : Nat)
  | negativeOutput (index : Nat) (value : Int64)
  | largeOutput (index : Nat) (value : Int64)
  /-- The sum of the outputs exceeds `limit` from the output at `index` on. -/
  | largeTotal (limit : Int64) (index : Nat)
  | spentTwice (outpoint : Outpoint)
  | coinbaseScript (length : Nat)
  | nullOutpoint
  deriving DecidableEq, Repr

def TxFault.rejection : TxFault → Rejection
  | .noInputs => .consensus "bad-txns-vin-empty" ""
  | .noOutputs => .consensus "bad-txns-vout-empty" ""
  | .oversize size =>
    .consensus "bad-txns-oversize" ("size " ++ toString size ++ " exceeds block weight")
  | .negativeOutput index value =>
    .consensus "bad-txns-vout-negative"
      ("output " ++ toString index ++ " has value " ++ toString value.toInt)
  | .largeOutput index value =>
    .consensus "bad-txns-vout-toolarge"
      ("output " ++ toString index ++ " has value " ++ toString value.toInt)
  | .largeTotal limit index =>
    .consensus "bad-txns-txouttotal-toolarge"
      ("total exceeds " ++ toString limit.toInt ++ " at output " ++ toString index)
  | .spentTwice outpoint =>
    .consensus "bad-txns-inputs-duplicate"
      (outpoint.hash.text ++ ":" ++ toString outpoint.index.toNat ++ " spent twice")
  | .coinbaseScript length =>
    .consensus "bad-cb-length" ("coinbase script is " ++ toString length ++ " bytes")
  | .nullOutpoint => .consensus "bad-txns-prevout-null" ""

/-! ## §2. Checks -/

namespace Tx

/-- Checks outputs one by one; `index` is the place of the first of them and `total` the sum of
those before it. -/
def checkOutputsFrom (p : Params) (index : Nat) (total : Int64) :
    List TxOutput → Except TxFault Unit
  | [] => .ok ()
  | output :: rest =>
    if output.value < 0 then .error (.negativeOutput index output.value)
    else if p.maxMoney < output.value then .error (.largeOutput index output.value)
    else
      match (addAmounts? total output.value).filter p.moneyRange with
      | some sum => checkOutputsFrom p (index + 1) sum rest
      | none => .error (.largeTotal p.maxMoney index)

/-- The first outpoint that is in `seen` or occurs before it in the list. -/
def repeated? (seen : Std.HashSet Outpoint) : List Outpoint → Option Outpoint
  | [] => none
  | outpoint :: rest =>
    if outpoint ∈ seen then some outpoint else repeated? (seen.insert outpoint) rest

/-- No output is spent twice. -/
def checkSpends (inputs : List TxInput) : Except TxFault Unit :=
  match repeated? ∅ (inputs.map TxInput.previous) with
  | some outpoint => .error (.spentTwice outpoint)
  | none => .ok ()

/-- The script of a coinbase has from two to a hundred bytes; no other transaction spends the null
outpoint. -/
def checkNulls : List TxInput → Except TxFault Unit
  | [input] =>
    if input.previous.isNull && (input.script.length < 2 || 100 < input.script.length) then
      .error (.coinbaseScript input.script.length)
    else .ok ()
  | inputs =>
    if inputs.any fun input => input.previous.isNull then .error .nullOutpoint else .ok ()

def check (p : Params) (tx : Tx) : Except TxFault Unit := do
  if tx.inputs.isEmpty then throw .noInputs
  if tx.outputs.isEmpty then throw .noOutputs
  if p.overweight tx.strippedSize then throw (.oversize tx.strippedSize)
  checkOutputsFrom p 0 0 tx.outputs
  checkSpends tx.inputs
  checkNulls tx.inputs

end Tx

end HeaderPeer
