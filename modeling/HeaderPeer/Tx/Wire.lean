/-
  HeaderPeer.Tx.Wire — transactions on the wire, and the ids taken from that form.

  A transaction with witness data is written as its version, a zero byte, a flag byte, the inputs,
  the outputs, one witness for each input and the lock time.  A reader that knows no witnesses takes
  the zero byte for an empty list of inputs, and a reader that does know them recognises the form
  by it.
-/
import HeaderPeer.Hash.Hasher
import HeaderPeer.Tx.Basic
import HeaderPeer.Wire.Codec

namespace HeaderPeer

open Wire

/-! ## §1. Parts -/

instance : Codec Outpoint where
  write _ o := .word256 o.hash ++ .uint32LE o.index
  read _ := do return { hash := ← Get.word256, index := ← Get.uint32LE }

/-- An input is written without its witness, which stands behind the outputs. -/
instance : Codec TxInput where
  write l i := Codec.write l i.previous ++ .byteArray i.script ++ .uint32LE i.sequence
  read l := do
    let previous ← Codec.read l
    let script ← Get.byteArray
    let sequence ← Get.uint32LE
    return { previous, script, sequence, witness := .none }

instance : Codec TxOutput where
  write _ o := .int64LE o.value ++ .byteArray o.script
  read _ := do return { value := ← Get.int64LE, script := ← Get.byteArray }

instance : Codec Witness where
  write _ w := .list .byteArray w.items
  read _ := do return ⟨← Get.list Get.byteArray⟩

/-! ## §2. Transactions -/

/-- The flag bit that announces witness data. -/
def Tx.witnessFlag : UInt8 := 1

/-- Writes one witness for each input. -/
def Tx.writeWitnesses (l : Layout) (inputs : List TxInput) : Put :=
  .each (fun input => Codec.write l input.witness) inputs

def Tx.write (l : Layout) (tx : Tx) : Put :=
  if l.witness && tx.hasWitness then
    .int32LE tx.version ++ .uint8 0 ++ .uint8 witnessFlag ++ Codec.write l tx.inputs
      ++ Codec.write l tx.outputs ++ writeWitnesses l tx.inputs ++ .uint32LE tx.lockTime
  else
    .int32LE tx.version ++ Codec.write l tx.inputs ++ Codec.write l tx.outputs
      ++ .uint32LE tx.lockTime

/-- The flags, the inputs and the outputs.  Where witnesses are known, an empty list of inputs
means that a flag byte follows; a flag byte of zero stands for a transaction without inputs and
outputs, and any other is followed by both lists. -/
def Tx.readLists (l : Layout) : Get (UInt8 × List TxInput × List TxOutput) := do
  let inputs ← Codec.read l
  if l.witness && inputs.isEmpty then
    let flags ← Get.uint8
    -- the zero byte is at the same time the count of an empty list of outputs
    if flags = 0 then return (0, [], [])
    else
      let inputs ← Codec.read l
      let outputs ← Codec.read l
      return (flags, inputs, outputs)
  else
    let outputs ← Codec.read l
    return (0, inputs, outputs)

/-- Reads one witness for each input. -/
def Tx.readWitnesses (l : Layout) (inputs : List TxInput) : Get (List TxInput) :=
  inputs.mapM fun input => do return { input with witness := ← Codec.read l }

/-- The inputs with the data that the flags announce: witnesses of which at least one is not
empty, and nothing else. -/
def Tx.readAnnounced (l : Layout) (flags : UInt8) (inputs : List TxInput) : Get (List TxInput) := do
  if flags &&& witnessFlag ≠ 0 then
    let inputs ← readWitnesses l inputs
    if inputs.all fun input => input.witness.isEmpty then throw .superfluousWitness
    -- the witnesses are judged before the flags that are left
    if flags ^^^ witnessFlag ≠ 0 then throw (.unknownOptionalData (flags ^^^ witnessFlag))
    return inputs
  else
    if flags ≠ 0 then throw (.unknownOptionalData flags)
    return inputs

/-- A transaction whose ids are still to be computed. -/
def Tx.read (l : Layout) : Get Tx := do
  let version ← Get.int32LE
  let (flags, inputs, outputs) ← readLists l
  let inputs ← readAnnounced l flags inputs
  let lockTime ← Get.uint32LE
  return { version, inputs, outputs, lockTime, txid := 0, wtxid := 0 }

instance : Codec Tx where
  write := Tx.write
  read := Tx.read

/-! ## §3. Ids and sizes -/

namespace Tx

/-- The transaction with both ids computed from what it holds. -/
def rehash (h : Hasher) (tx : Tx) : Tx :=
  let txid := h.digest (encode .stripped tx)
  { tx with
    txid
    wtxid := if tx.hasWitness then h.digest (encode .full tx) else txid }

/-- A transaction with its ids. -/
def ofParts (h : Hasher) (version : Int32) (inputs : List TxInput) (outputs : List TxOutput)
    (lockTime : UInt32) : Tx :=
  rehash h { version, inputs, outputs, lockTime, txid := 0, wtxid := 0 }

/-- The number of bytes of the form without witness data. -/
def strippedSize (tx : Tx) : Nat := Wire.size .stripped tx

end Tx

end HeaderPeer
