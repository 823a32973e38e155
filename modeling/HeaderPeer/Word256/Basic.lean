/-
  HeaderPeer.Word256.Basic — 256-bit numbers: block hashes, hash-tree roots and work targets.

  A word is a bit vector, so its order is that of the natural numbers it denotes.  On the wire it
  is thirty-two bytes, least significant first.
-/
import HeaderPeer.Bytes

namespace HeaderPeer

/-- A natural number below 2^256. -/
abbrev Word256 := BitVec 256

namespace Word256

/-! ## §1. Bytes -/

/-- The word whose base-256 digits are `bs`, least significant first. -/
def ofBytes (bs : Bytes) : Word256 := BitVec.ofNat 256 bs.toNatLE

/-- The thirty-two base-256 digits of a word, least significant first. -/
def toBytes (w : Word256) : Bytes := Bytes.ofNatLE 32 w.toNat

@[simp] theorem length_toBytes (w : Word256) : w.toBytes.length = 32 :=
  Bytes.length_ofNatLE 32 w.toNat

/-! ## §2. Limbs -/

/-- The word with the given 64-bit limbs, least significant limb first. -/
def ofLimbs (limbs : Vector UInt64 4) : Word256 :=
  BitVec.ofNat 256 (limbs[0].toNat + limbs[1].toNat <<< 64 + limbs[2].toNat <<< 128
    + limbs[3].toNat <<< 192)

/-- The 64-bit limbs of a word, least significant limb first. -/
def limbs (w : Word256) : Vector UInt64 4 :=
  #v[UInt64.ofNat w.toNat, UInt64.ofNat (w.toNat >>> 64), UInt64.ofNat (w.toNat >>> 128),
    UInt64.ofNat (w.toNat >>> 192)]

end Word256

end HeaderPeer
