/-
  HeaderPeer.Header — block headers and locators.

  A header names the header before it by hash and commits to the block's transactions.  Its own
  hash is the digest of its eighty bytes; the count of transactions that follows them in a list of
  headers is not part of it.
-/
import HeaderPeer.Hash.Hasher
import HeaderPeer.Wire.Codec
import HeaderPeer.Word256.Compact

namespace HeaderPeer

open Wire

/-! ## §1. Headers -/

/-- A block header, together with its hash. -/
structure Header where
  version : Int32
  /-- The hash of the header before this one. -/
  previous : Word256
  /-- The root of the hash tree over the block's transactions. -/
  merkleRoot : Word256
  /-- Seconds since the start of 1970. -/
  time : UInt32
  bits : Compact
  nonce : UInt32
  /-- How many transactions the header is said to stand for. -/
  txCount : UInt64
  hash : Word256
  deriving DecidableEq, Repr

def Header.write (l : Layout) (h : Header) : Put :=
  .int32LE h.version ++ .word256 h.previous ++ .word256 h.merkleRoot ++ .uint32LE h.time
    ++ .uint32LE h.bits ++ .uint32LE h.nonce
    ++ (if l.bareHeader then .nothing else .varInt h.txCount)

/-- A header whose hash is still to be computed. -/
def Header.read (l : Layout) : Get Header := do
  let version ← Get.int32LE
  let previous ← Get.word256
  let merkleRoot ← Get.word256
  let time ← Get.uint32LE
  let bits ← Get.uint32LE
  let nonce ← Get.uint32LE
  let txCount ← if l.bareHeader then pure 0 else Get.varInt
  return { version, previous, merkleRoot, time, bits, nonce, txCount, hash := 0 }

instance : Codec Header where
  write := Header.write
  read := Header.read

namespace Header

/-- The digest of the header's eighty bytes. -/
def computeHash (hasher : Hasher) (h : Header) : Word256 :=
  hasher.digest (encode Layout.full.insideBlock h)

/-- The header with its hash computed from what it holds. -/
def rehash (hasher : Hasher) (h : Header) : Header := { h with hash := h.computeHash hasher }

def ofParts (hasher : Hasher) (version : Int32) (previous merkleRoot : Word256) (time : UInt32)
    (bits : Compact) (nonce : UInt32) : Header :=
  rehash hasher { version, previous, merkleRoot, time, bits, nonce, txCount := 0, hash := 0 }

end Header

/-! ## §2. Locators -/

/-- Hashes of a chain of headers, newest first and ever more sparse, by which a peer finds the
newest header that it shares. -/
structure Locator where
  hashes : List Word256
  deriving DecidableEq, Repr

instance : Codec Locator where
  write l locator := Codec.write l locator.hashes
  read l := do return ⟨← Codec.read l⟩

end HeaderPeer
