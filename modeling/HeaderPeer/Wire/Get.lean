/-
  HeaderPeer.Wire.Get — reading values off the front of a byte string.

  A reader takes the bytes that are left and gives a value or a failure, together with the bytes
  that are left then.  A primitive read that fails takes nothing; a compound one keeps what its
  earlier parts took.
-/
import HeaderPeer.Wire.Error
import HeaderPeer.Word256.Basic

namespace HeaderPeer.Wire

/-- A reader of values of type `α`: its state is the bytes that are left. -/
abbrev Get (α : Type) := EStateM Error Bytes α

namespace Get

/-! ## §1. Bytes and fixed widths -/

def bytes (n : Nat) : Get Bytes := fun data =>
  let front := data.take n
  if front.length < n then .error (.endOfData n data.length) data
  else .ok front (data.drop n)

def atEnd : Get Bool := fun data => .ok data.isEmpty data

/-- A number of `width` bytes, least significant first. -/
def natLE (width : Nat) : Get Nat := do return (← bytes width).toNatLE

/-- A number of `width` bytes, most significant first. -/
def natBE (width : Nat) : Get Nat := do return (← bytes width).toNatBE

def uint8 : Get UInt8 := do return UInt8.ofNat (← natLE 1)
def uint16LE : Get UInt16 := do return UInt16.ofNat (← natLE 2)
def uint16BE : Get UInt16 := do return UInt16.ofNat (← natBE 2)
def uint32LE : Get UInt32 := do return UInt32.ofNat (← natLE 4)
def uint32BE : Get UInt32 := do return UInt32.ofNat (← natBE 4)
def uint64LE : Get UInt64 := do return UInt64.ofNat (← natLE 8)
def int32LE : Get Int32 := do return (← uint32LE).toInt32
def int64LE : Get Int64 := do return (← uint64LE).toInt64

/-- A truth value: any byte but zero is true. -/
def bool : Get Bool := do return (← uint8) ≠ 0

/-- A 256-bit number, least significant byte first. -/
def word256 : Get Word256 := do return Word256.ofBytes (← bytes 32)

/-! ## §2. Var ints and what they measure -/

/-- A var int: a small number in one byte, or a marker byte and a number of the width it marks. -/
def varInt : Get UInt64 := do
  let first ← uint8
  if first = 0xfd then return (← uint16LE).toUInt64
  else if first = 0xfe then return (← uint32LE).toUInt64
  else if first = 0xff then uint64LE
  else return first.toUInt64

/-- A var int that counts bytes or items. -/
def count : Get Nat := do return (← varInt).toNat

/-- A counted byte string; the count zero stands for "no byte string". -/
def byteArray? : Get (Option Bytes) := do
  let n ← count
  if n = 0 then return none else return some (← bytes n)

/-- A counted byte string, empty when there is none. -/
def byteArray : Get Bytes := do return (← byteArray?).getD []

/-- A counted text in UTF-8. -/
def text : Get String := do
  let bs ← bytes (← count)
  match bs.toText? with
  | some s => return s
  | none => throw .invalidUtf8

/-! ## §3. Repetition -/

/-- `n` items, added in order to those of `taken`, which holds the latest first. -/
def timesOnto {α : Type} (item : Get α) : (n : Nat) → (taken : List α) → Get (List α)
  | 0, taken => return taken.reverse
  | n + 1, taken => do
    let a ← item
    timesOnto item n (a :: taken)

/-- `n` items, one after the other. -/
def times {α : Type} (item : Get α) (n : Nat) : Get (List α) := timesOnto item n []

def list {α : Type} (item : Get α) : Get (List α) := do times item (← count)

end Get

end HeaderPeer.Wire
