/-
  HeaderPeer.Message.Inventory — references to blocks and transactions.
-/
import HeaderPeer.Wire.Codec

namespace HeaderPeer

open Wire

/-- What kind of thing a reference names. -/
inductive InventoryKind where
  | error
  | tx
  | block
  | filteredBlock
  | compactBlock
  | witnessTx
  | witnessBlock
  /-- A kind that has a number but no name here. -/
  | unknown (code : UInt32)
  deriving DecidableEq, Repr

namespace InventoryKind

/-- The number of a kind on the wire. -/
def code : InventoryKind → UInt32
  | error => 0
  | tx => 1
  | block => 2
  | filteredBlock => 3
  | compactBlock => 4
  | witnessTx => 0x40000001
  | witnessBlock => 0x40000002
  | unknown code => code

/-- The name of a kind for people. -/
def title : InventoryKind → String
  | error => "Error"
  | tx => "Tx"
  | block => "Block"
  | filteredBlock => "FilteredBlock"
  | compactBlock => "CompactBlock"
  | witnessTx => "WitnessTx"
  | witnessBlock => "WitnessBlock"
  | unknown _ => "Unknown"

/-- The kinds that have a name. -/
def named : List InventoryKind :=
  [error, tx, block, filteredBlock, compactBlock, witnessTx, witnessBlock]

/-- The kind with a number on the wire: the named one if there is one. -/
def ofCode (code : UInt32) : InventoryKind :=
  (named.find? fun kind => kind.code = code).getD (unknown code)

end InventoryKind

/-- A reference to a block or a transaction. -/
structure InventoryItem where
  kind : InventoryKind
  hash : Word256
  deriving DecidableEq, Repr

instance : Codec InventoryItem where
  write _ item := .uint32LE item.kind.code ++ .word256 item.hash
  read _ := do return { kind := .ofCode (← Get.uint32LE), hash := ← Get.word256 }

end HeaderPeer
