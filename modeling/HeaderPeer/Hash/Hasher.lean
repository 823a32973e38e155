/-
  HeaderPeer.Hash.Hasher — the digest that a network uses.

  Everything that hashes takes the digest as a parameter; the networks of `HeaderPeer.Network` all
  use SHA-256 twice.
-/
import HeaderPeer.Hash.Sha256
import HeaderPeer.Word256.Basic

namespace HeaderPeer

/-- A digest of byte strings. -/
structure Hasher where
  digest : Bytes → Word256

namespace Hasher

/-- The digest of two words written one after the other. -/
def digestPair (h : Hasher) (left right : Word256) : Word256 :=
  h.digest (left.toBytes ++ right.toBytes)

/-- The first four digest bytes, which guard the payload of a frame. -/
def checksum (h : Hasher) (bs : Bytes) : Bytes := (h.digest bs).toBytes.take 4

@[simp] theorem length_checksum (h : Hasher) (bs : Bytes) : (h.checksum bs).length = 4 := by
  simp [checksum]

def sha256 : Hasher := ⟨fun bs => Word256.ofBytes (Sha256.digest bs)⟩

def doubleSha256 : Hasher := ⟨fun bs => Word256.ofBytes (Sha256.digest (Sha256.digest bs))⟩

end Hasher

end HeaderPeer
