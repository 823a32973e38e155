/-
  HeaderPeer.Outline.Message — messages laid out for reading.
-/
import HeaderPeer.Message.Basic
import HeaderPeer.Outline.Basic
import HeaderPeer.Outline.Ip
import HeaderPeer.Word256.Text

namespace HeaderPeer

/-! ## §1. Parts -/

namespace Outline

def nat (n : Nat) : Outline := line (toString n)

def int (i : Int) : Outline := line (toString i)

def bool (b : Bool) : Outline := line (toString b)

def quoted (s : String) : Outline := line (Quoted.ofText s)

def word256 (w : Word256) : Outline := line ("UInt256(" ++ w.text ++ ")")

/-- A byte string as a list of numbers. -/
def bytes (bs : Bytes) : Outline := list (bs.map fun b => nat b.toNat)

end Outline

open Outline

/-- The names of services, and the number of those without a name. -/
def Services.text (s : Services) : String :=
  let rest := s.without .allNamed
  let number := "0x" ++ String.ofList (Quoted.hexDigits rest.bits.toNat)
  let unnamed := if rest.isEmpty then [] else [number]
  if s.isEmpty then "0x0" else " | ".intercalate (s.names ++ unnamed)

def Services.outline (s : Services) : Outline := tagged "NodeServices" (line s.text)

def NetAddress.outline (a : NetAddress) : Outline :=
  record "NetworkAddress" [
    ("time", nat a.time.toNat),
    ("services", a.services.outline),
    ("ip", line a.ip.text),
    ("port", nat a.portNumber.toNat)]

def InventoryKind.outline : InventoryKind → Outline
  | unknown code => tagged "Unknown" (nat code.toNat)
  | named => line named.title

def InventoryItem.outline (item : InventoryItem) : Outline :=
  record "InventoryVector" [("kind", item.kind.outline), ("hash", word256 item.hash)]

/-! ## §2. Headers, transactions and blocks -/

def Header.outline (h : Header) : Outline :=
  record "BlockHeader" [
    ("version", int h.version.toInt),
    ("previous_block_hash", word256 h.previous),
    ("merkle_root", word256 h.merkleRoot),
    ("timestamp", nat h.time.toNat),
    ("bits", nat h.bits.toNat),
    ("nonce", nat h.nonce.toNat),
    ("transaction_count", nat h.txCount.toNat),
    ("hash", word256 h.hash)]

def Outpoint.outline (o : Outpoint) : Outline :=
  record "OutPoint" [("hash", word256 o.hash), ("index", nat o.index.toNat)]

def Witness.outline (w : Witness) : Outline :=
  record "TransactionWitness" [("components", list (w.items.map bytes))]

def TxInput.outline (i : TxInput) : Outline :=
  record "TransactionInput" [
    ("previous_output", i.previous.outline),
    ("signature_script", bytes i.script),
    ("sequence", nat i.sequence.toNat),
    ("script_witness", i.witness.outline)]

def TxOutput.outline (o : TxOutput) : Outline :=
  record "TransactionOutput" [
    ("value", int o.value.toInt),
    ("public_key_script", bytes o.script)]

def Tx.outline (tx : Tx) : Outline :=
  record "Transaction" [
    ("version", int tx.version.toInt),
    ("inputs", list (tx.inputs.map TxInput.outline)),
    ("outputs", list (tx.outputs.map TxOutput.outline)),
    ("lock_time", nat tx.lockTime.toNat),
    ("hash", word256 tx.txid),
    ("witness_hash", word256 tx.wtxid)]

def Block.outline (b : Block) : Outline :=
  record "Block" [
    ("header", b.header.outline),
    ("transactions", list (b.txs.map Tx.outline))]

/-! ## §3. Messages -/

def Announcement.outline (a : Announcement) : Outline :=
  record "VersionMessage" [
    ("version", int a.version.toInt),
    ("services", a.services.outline),
    ("timestamp", int a.timestamp.toInt),
    ("receiver", a.receiver.outline),
    ("sender", a.sender.outline),
    ("nonce", nat a.nonce.toNat),
    ("user_agent", quoted a.userAgent),
    ("start_height", int a.startHeight.toInt),
    ("relay", bool a.relay)]

def HeaderRequest.outline (r : HeaderRequest) : Outline :=
  record "GetHeadersMessage" [
    ("version", int r.version.toInt),
    ("locator", record "BlockLocator" [("hashes", list (r.locator.hashes.map word256))]),
    ("hash_stop", word256 r.stop)]

/-- What a message says, if it says anything beyond its kind. -/
def Message.content? : Message → Option Outline
  | version a => some a.outline
  | ping nonce => some (nat nonce.toNat)
  | pong nonce => some (nat nonce.toNat)
  | addr addresses => some (list (addresses.map NetAddress.outline))
  | inv items => some (list (items.map InventoryItem.outline))
  | getData items => some (list (items.map InventoryItem.outline))
  | notFound items => some (list (items.map InventoryItem.outline))
  | getHeaders request => some request.outline
  | headers items => some (list (items.map Header.outline))
  | block b => some b.outline
  | tx t => some t.outline
  | _ => none

/-- A message laid out over several lines. -/
def Message.outline (m : Message) : Outline :=
  match m with
  | unknown command payload =>
    record "Unknown" [("command", quoted command), ("payload", line (Quoted.ofBytes payload))]
  | _ =>
    let title := (m.kind?.map Kind.title).getD ""
    match m.content? with
    | some content => tagged title content
    | none => line title

end HeaderPeer
