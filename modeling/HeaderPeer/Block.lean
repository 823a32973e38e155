/-
  HeaderPeer.Block — blocks: a header and the transactions it commits to.
-/
import HeaderPeer.Hash.Merkle
import HeaderPeer.Header
import HeaderPeer.Tx.Wire

namespace HeaderPeer

open Wire

structure Block where
  header : Header
  txs : List Tx
  deriving DecidableEq, Repr

/-- The list of transactions brings its own count, so the header is written without one. -/
instance : Codec Block where
  write l b := Codec.write l.insideBlock b.header ++ Codec.write l b.txs
  read l := do
    let header ← Codec.read l.insideBlock
    let txs ← Codec.read l
    return { header, txs }

namespace Block

/-- The ids of the transactions, in block order. -/
def txids (b : Block) : List Word256 := b.txs.map Tx.txid

/-- The hash-tree root of the transactions as they are. -/
def computeMerkleRoot (h : Hasher) (b : Block) : Word256 := Merkle.root h b.txids

/-- The block with the hashes of its header and its transactions computed from what they hold. -/
def rehash (h : Hasher) (b : Block) : Block :=
  { header := b.header.rehash h, txs := b.txs.map (Tx.rehash h) }

/-- The number of bytes of the form without witness data. -/
def strippedSize (b : Block) : Nat := Wire.size .stripped b

/-- The first transaction, if it creates new coins. -/
def coinbase? (b : Block) : Option Tx := b.txs.head?.filter Tx.isCoinbase

end Block

end HeaderPeer
