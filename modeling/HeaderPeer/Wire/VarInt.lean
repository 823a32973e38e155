/-
  HeaderPeer.Wire.VarInt — numbers below 2^64 in as few bytes as they need.

  A number below 253 is its own byte.  A larger one follows a marker byte in two, four or eight
  bytes, least significant first.
-/
import HeaderPeer.Bytes

namespace HeaderPeer.Wire.VarInt

/-- How many bytes the shortest form of `v` takes. -/
def size (v : UInt64) : Nat :=
  if v ≤ 0xfc then 1
  else if v ≤ 0xffff then 3
  else if v ≤ 0xffffffff then 5
  else 9

def encode (v : UInt64) : Bytes :=
  if v ≤ 0xfc then [v.toUInt8]
  else if v ≤ 0xffff then 0xfd :: Bytes.ofNatLE 2 v.toNat
  else if v ≤ 0xffffffff then 0xfe :: Bytes.ofNatLE 4 v.toNat
  else 0xff :: Bytes.ofNatLE 8 v.toNat

theorem length_encode (v : UInt64) : (encode v).length = size v := by
  unfold encode size
  split
  · rfl
  · split
    · simp
    · split <;> simp

end HeaderPeer.Wire.VarInt
