/-
  HeaderPeer.Text.Quoted — quoted forms of characters, texts and byte strings.

  A quoted form is delimited by quotation marks; inside it the delimiter, the backslash and the
  characters that do not print are escaped, and everything else stands for itself.
-/
import HeaderPeer.Bytes
import HeaderPeer.Text.Printing

namespace HeaderPeer.Quoted

/-! ## §1. Characters and texts -/

/-- Lower-case hexadecimal digits of `n`, without leading zeros. -/
def hexDigits (n : Nat) : List Char := Nat.toDigits 16 n

/-- One character inside a quotation delimited by `mark`.  A character that does not print is
written as the hexadecimal number of its code point. -/
def escape (mark c : Char) : List Char :=
  if c = '\x00' then ['\\', '0']
  else if c = '\t' then ['\\', 't']
  else if c = '\r' then ['\\', 'r']
  else if c = '\n' then ['\\', 'n']
  else if c = '\\' then ['\\', '\\']
  else if c = mark then ['\\', c]
  else if Printing.prints c then [c]
  else ['\\', 'u', '\x7b'] ++ hexDigits c.toNat ++ ['\x7d']

/-- A single character between apostrophes. -/
def ofChar (c : Char) : String :=
  String.ofList (['\''] ++ escape '\'' c ++ ['\''])

def ofText (s : String) : String :=
  String.ofList (['"'] ++ s.toList.flatMap (escape '"') ++ ['"'])

/-! ## §2. Byte strings -/

/-- Two lower-case hexadecimal digits of a byte. -/
def hexPair (b : UInt8) : List Char :=
  [Nat.digitChar (b.toNat / 16), Nat.digitChar (b.toNat % 16)]

/-- One byte of a quoted byte string: printable ASCII stands for itself, the usual control
characters have a letter, and any other byte is written as two hexadecimal digits. -/
def escapeByte (b : UInt8) : List Char :=
  if b = 0x0a then ['\\', 'n']
  else if b = 0x0d then ['\\', 'r']
  else if b = 0x09 then ['\\', 't']
  else if b = 0x5c then ['\\', '\\']
  else if b = 0x22 then ['\\', '"']
  else if b = 0x00 then ['\\', '0']
  else if 0x20 ≤ b ∧ b < 0x7f then [Char.ofNat b.toNat]
  else ['\\', 'x'] ++ hexPair b

/-- A byte string between quotation marks, marked by a leading b. -/
def ofBytes (bs : Bytes) : String :=
  String.ofList (['b', '"'] ++ bs.flatMap escapeByte ++ ['"'])

end HeaderPeer.Quoted
