/-
  HeaderPeer.Word256.Text — 256-bit numbers as hexadecimal text.

  The text form is sixty-four digits, most significant first, so the order of words is the order of
  their texts.  Reading allows a leading mark ("0x" or "0X"), tests the length before the digits,
  and counts the length in bytes of the text without the mark.
-/
import HeaderPeer.Hex
import HeaderPeer.Word256.Basic

namespace HeaderPeer.Word256

/-- Why a text or a byte string is no 256-bit number. -/
inductive ParseError where
  /-- There are `actual` units where `expected` are needed. -/
  | length (expected actual : Nat)
  /-- The units are not hexadecimal digits. -/
  | hex (cause : Hex.Error)
  deriving DecidableEq, Repr

def ParseError.message : ParseError → String
  | .length expected actual =>
    "Invalid length: expected " ++ toString expected ++ ", got " ++ toString actual
  | .hex cause => "Invalid hex string: " ++ cause.message

/-- A word from exactly thirty-two bytes, least significant first. -/
def ofBytes? (bs : Bytes) : Except ParseError Word256 :=
  if bs.length = 32 then .ok (ofBytes bs) else .error (.length 32 bs.length)

/-- Takes one hexadecimal mark, "0x" or "0X", off the front. -/
def dropMark : Bytes → Bytes
  | 0x30 :: 0x78 :: rest => rest
  | 0x30 :: 0x58 :: rest => rest
  | text => text

/-- The word written by the text whose bytes are `text`. -/
def parseBytes (text : Bytes) : Except ParseError Word256 :=
  let digits := dropMark text
  if digits.length ≠ 64 then .error (.length 64 digits.length)
  else
    match Hex.decode digits with
    | .ok bs => ofBytes? bs.reverse
    | .error e => .error (.hex e)

def parse (s : String) : Except ParseError Word256 := parseBytes (Bytes.ofText s)

/-- The sixty-four lower-case digits of a word, most significant first. -/
def text (w : Word256) : String := Hex.encode w.toBytes.reverse

end HeaderPeer.Word256
