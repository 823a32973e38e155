/-
  HeaderPeer.Wire.Codec — types with a form on the wire.

  A wire type has a writer and a reader for every layout.  A list on the wire is a count followed
  by its items.
-/
import HeaderPeer.Wire.Get
import HeaderPeer.Wire.Layout
import HeaderPeer.Wire.Put

namespace HeaderPeer.Wire

/-- Types whose values are written to and read from the wire. -/
class Codec (α : Type) where
  write : Layout → α → Put
  read : Layout → Get α

variable {α : Type} [Codec α]

def encode (l : Layout) (a : α) : Bytes := ((Codec.write l a).run .empty).2.toBytes

/-- The number of bytes that writing a value reports. -/
def size (l : Layout) (a : α) : Nat := ((Codec.write l a).run .empty).1

/-- The value at the front of a byte string. -/
def decode (l : Layout) (bs : Bytes) : Except Error α :=
  match (Codec.read l : Get α).run bs with
  | .ok a _ => .ok a
  | .error e _ => .error e

instance : Codec Word256 where
  write _ w := .word256 w
  read _ := .word256

instance : Codec (List α) where
  write l items := .list (Codec.write l) items
  read l := .list (Codec.read l)

end HeaderPeer.Wire
