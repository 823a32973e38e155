/-
  HeaderPeer.Word256.Compact — work targets in compact form.

  A compact target is a 32-bit word: the top byte is a size in bytes, bit 23 a sign, and the low
  twenty-three bits a mantissa whose most significant byte stands at the place the size names.  A
  mantissa that would leave the 256 bits, a negative target and a zero target denote nothing.
-/
import HeaderPeer.Word256.Basic

namespace HeaderPeer

/-- A work target in compact form. -/
abbrev Compact := UInt32

namespace Compact

/-- How many bytes the target takes. -/
def size (c : Compact) : Nat := (c >>> 24).toNat

/-- The leading digits of the target. -/
def mantissa (c : Compact) : Nat := (c &&& 0x007fffff).toNat

/-- A target with the sign bit set is negative, unless it is zero. -/
def negative (c : Compact) : Bool := c.mantissa ≠ 0 ∧ c &&& 0x00800000 ≠ 0

/-- Whether a byte of the mantissa that is not zero would stand above the 256 bits. -/
def overflows (c : Compact) : Bool :=
  c.mantissa ≠ 0 ∧
    (34 < c.size ∨ (0xff < c.mantissa ∧ 33 < c.size) ∨ (0xffff < c.mantissa ∧ 32 < c.size))

/-- The bytes of the target, least significant first: the mantissa moved up to its place, or cut
off below the point. -/
def targetBytes (c : Compact) : Bytes :=
  if c.size ≤ 3 then Bytes.ofNatLE 32 (c.mantissa >>> (8 * (3 - c.size)))
  else (List.replicate (c.size - 3) 0 ++ Bytes.ofNatLE 3 c.mantissa).take 32

/-- The target that a compact form denotes, if it denotes one. -/
def target? (c : Compact) : Option Word256 :=
  if c.negative || c.overflows then none
  else
    let target := Word256.ofBytes c.targetBytes
    if target = 0 then none else some target

end Compact

end HeaderPeer
