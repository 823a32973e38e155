/-
  HeaderPeer.Wire.Put — writing values at the end of an output buffer.

  A writer extends a buffer and reports how many bytes it added.  Writers are put together with
  `++`, which adds up the reports.
-/
import HeaderPeer.Wire.VarInt
import HeaderPeer.Word256.Basic

namespace HeaderPeer.Wire

/-! ## §1. Buffers -/

/-- A buffer that grows at its end. -/
structure Output where
  data : Array UInt8
  deriving DecidableEq, Repr

namespace Output

def empty : Output := ⟨#[]⟩

def ofBytes (bs : Bytes) : Output := ⟨bs.toArray⟩

def toBytes (out : Output) : Bytes := out.data.toList

def append (out : Output) (bs : Bytes) : Output := ⟨out.data.appendList bs⟩

@[simp] theorem toBytes_empty : empty.toBytes = [] := rfl

@[simp] theorem toBytes_append (out : Output) (bs : Bytes) :
    (out.append bs).toBytes = out.toBytes ++ bs := by
  simp [append, toBytes]

end Output

/-! ## §2. Writers -/

/-- A writer: from a buffer to the number of bytes added and the longer buffer. -/
structure Put where
  run : Output → Nat × Output

namespace Put

def nothing : Put := ⟨fun out => (0, out)⟩

def andThen (p q : Put) : Put := ⟨fun out =>
  let (n, out) := p.run out
  let (m, out) := q.run out
  (n + m, out)⟩

instance : Append Put := ⟨andThen⟩

/-- Writes `bs`, which the caller knows to be `width` bytes. -/
def fixed (width : Nat) (bs : Bytes) : Put := ⟨fun out => (width, out.append bs)⟩

/-- Writes a byte string as it is. -/
def bytes (bs : Bytes) : Put := fixed bs.length bs

def uint8 (v : UInt8) : Put := fixed 1 [v]
def uint16LE (v : UInt16) : Put := fixed 2 (Bytes.ofNatLE 2 v.toNat)
def uint16BE (v : UInt16) : Put := fixed 2 (Bytes.ofNatBE 2 v.toNat)
def uint32LE (v : UInt32) : Put := fixed 4 (Bytes.ofNatLE 4 v.toNat)
def uint32BE (v : UInt32) : Put := fixed 4 (Bytes.ofNatBE 4 v.toNat)
def uint64LE (v : UInt64) : Put := fixed 8 (Bytes.ofNatLE 8 v.toNat)
def int32LE (v : Int32) : Put := uint32LE v.toUInt32
def int64LE (v : Int64) : Put := uint64LE v.toUInt64

/-- Writes a truth value as one or zero. -/
def bool (v : Bool) : Put := uint8 (if v then 1 else 0)

/-- Writes a 256-bit number, least significant byte first. -/
def word256 (w : Word256) : Put := fixed 32 w.toBytes

/-- Writes a var int in its shortest form. -/
def varInt (v : UInt64) : Put := fixed (VarInt.size v) (VarInt.encode v)

/-- Writes a number of bytes or items as a var int. -/
def count (n : Nat) : Put := varInt (UInt64.ofNat n)

def byteArray (bs : Bytes) : Put := count bs.length ++ bytes bs

/-- Writes a counted byte string, or the count zero for none. -/
def byteArray? (bs : Option Bytes) : Put := byteArray (bs.getD [])

/-- Writes a counted text in UTF-8. -/
def text (s : String) : Put := byteArray (Bytes.ofText s)

def each {α : Type} (item : α → Put) (items : List α) : Put := ⟨fun out =>
  items.foldl (fun (written, out) a =>
    let (n, out) := (item a).run out
    (written + n, out)) (0, out)⟩

def list {α : Type} (item : α → Put) (items : List α) : Put :=
  count items.length ++ each item items

end Put

end HeaderPeer.Wire
