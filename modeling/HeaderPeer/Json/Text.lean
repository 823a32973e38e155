/-
  HeaderPeer.Json.Text — strings inside JSON texts.

  A string is written between quotation marks, with escapes for the quotation mark, the backslash
  and the control characters.  An escape by number gives a 16-bit unit, and two such units may make
  up one character; a string that holds half of such a pair is well-formed JSON but no text.
-/
namespace HeaderPeer.Json

/-! ## §1. Pieces -/

/-- A part of a string as it was read. -/
inductive Piece where
  /-- A character that stands for itself or has an escape of its own. -/
  | char (c : Char)
  /-- A 16-bit unit given by its number. -/
  | unit (n : Nat)
  deriving DecidableEq, Repr

/-- A unit that begins a pair. -/
def leads (n : Nat) : Bool := 0xd800 ≤ n ∧ n < 0xdc00

/-- A unit that ends a pair. -/
def trails (n : Nat) : Bool := 0xdc00 ≤ n ∧ n < 0xe000

/-- The character of a pair of units. -/
def pair (high low : Nat) : Char := Char.ofNat (0x10000 + (high - 0xd800) * 0x400 + (low - 0xdc00))

/-- The characters of a string, if all its units make up characters. -/
def chars? : List Piece → Option (List Char)
  | [] => some []
  | .char c :: rest => (chars? rest).map (c :: ·)
  | .unit high :: .unit low :: rest =>
    if leads high then
      if trails low then (chars? rest).map (pair high low :: ·) else none
    else if trails high then none
    else (chars? (.unit low :: rest)).map (Char.ofNat high :: ·)
  | .unit n :: rest =>
    if leads n || trails n then none else (chars? rest).map (Char.ofNat n :: ·)

/-- The text of a string, if it is one. -/
def text? (pieces : List Piece) : Option String := (chars? pieces).map String.ofList

/-! ## §2. Reading -/

/-- The value of a hexadecimal digit of either case. -/
def hexValue? (c : Char) : Option Nat :=
  if '0' ≤ c ∧ c ≤ '9' then some (c.toNat - 48)
  else if 'a' ≤ c ∧ c ≤ 'f' then some (c.toNat - 87)
  else if 'A' ≤ c ∧ c ≤ 'F' then some (c.toNat - 55)
  else none

/-- The unit with four digits. -/
def unit? (a b c d : Char) : Option Nat := do
  return (← hexValue? a) * 0x1000 + (← hexValue? b) * 0x100 + (← hexValue? c) * 0x10
    + (← hexValue? d)

/-- The character of an escape of one letter. -/
def escaped? : Char → Option Char
  | '"' => some '"'
  | '\\' => some '\\'
  | '/' => some '/'
  | 'b' => some '\x08'
  | 'f' => some '\x0c'
  | 'n' => some '\n'
  | 'r' => some '\r'
  | 't' => some '\t'
  | _ => none

/-- Reads a string up to its closing mark: the pieces, and what follows the mark. -/
def readString : List Char → Option (List Piece × List Char)
  | [] => none
  | '"' :: rest => some ([], rest)
  | '\\' :: 'u' :: a :: b :: c :: d :: rest => do
    let n ← unit? a b c d
    let (pieces, rest) ← readString rest
    return (.unit n :: pieces, rest)
  | '\\' :: letter :: rest => do
    let c ← escaped? letter
    let (pieces, rest) ← readString rest
    return (.char c :: pieces, rest)
  | c :: rest =>
    if c = '\\' ∨ c.toNat < 0x20 then none
    else do
      let (pieces, rest) ← readString rest
      return (.char c :: pieces, rest)

/-! ## §3. Writing -/

/-- A character inside quotation marks.  Only what must be escaped is escaped. -/
def escape (c : Char) : List Char :=
  if c = '"' then ['\\', '"']
  else if c = '\\' then ['\\', '\\']
  else if c = '\x08' then ['\\', 'b']
  else if c = '\x0c' then ['\\', 'f']
  else if c = '\n' then ['\\', 'n']
  else if c = '\r' then ['\\', 'r']
  else if c = '\t' then ['\\', 't']
  else if c.toNat < 0x20 then
    ['\\', 'u', '0', '0', Nat.digitChar (c.toNat / 16), Nat.digitChar (c.toNat % 16)]
  else [c]

def quote (s : String) : List Char := '"' :: s.toList.flatMap escape ++ ['"']

end HeaderPeer.Json
