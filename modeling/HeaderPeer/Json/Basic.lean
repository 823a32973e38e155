/-
  HeaderPeer.Json.Basic — JSON texts and their values.

  The grammar is followed to the letter: nothing but the four blank characters may stand between the
  parts, a number has no leading zeros, and nothing follows the value.  Numbers keep what tells an
  integer from other numbers.
-/
import HeaderPeer.Json.Text

namespace HeaderPeer

/-! ## §1. Values -/

/-- A number as it was written. -/
structure Json.Number where
  negative : Bool
  /-- The digits before the point, most significant first. -/
  digits : List Char
  /-- Whether there is neither a fraction nor an exponent. -/
  whole : Bool
  deriving DecidableEq, Repr

/-- A JSON value.  The members of an object keep their order, and a name may occur several times. -/
inductive Json where
  | null
  | bool (value : Bool)
  | number (value : Json.Number)
  | string (pieces : List Json.Piece)
  | array (items : List Json)
  | object (members : List (List Json.Piece × Json))

namespace Json

/-- The number with the given decimal digits, if it is at most `limit`.  Reading stops at the digit
that takes it beyond. -/
def natUpTo? (limit : Nat) (digits : List Char) : Option Nat :=
  digits.foldlM (fun n d =>
    let n := 10 * n + (d.toNat - 48)
    if n ≤ limit then some n else none) 0

/-- The integer that a number denotes, if it is one of at most `limit` in size.  A zero with a sign
is not taken for an integer. -/
def Number.intUpTo? (limit : Nat) (n : Number) : Option Int := do
  let size ← natUpTo? limit n.digits
  if !n.whole || (n.negative && size = 0) then none
  else some (if n.negative then -size else size)

/-- The integer of a value, if it is one and lies between the bounds. -/
def int? (low high : Int) : Json → Option Int
  | number n =>
    (n.intUpTo? (max low.natAbs high.natAbs)).filter fun i => low ≤ i && i ≤ high
  | _ => none

/-- The truth value of a value, if it is one. -/
def bool? : Json → Option Bool
  | bool b => some b
  | _ => none

/-- The text of a value, if it is one. -/
def string? : Json → Option String
  | string pieces => text? pieces
  | _ => none

/-! ## §2. Reading -/

/-- A reader takes a value off the front of a text. -/
abbrev Reader (α : Type) := List Char → Option (α × List Char)

/-- Characters that may stand between the parts of a text. -/
def isBlank (c : Char) : Bool := c = ' ' || c = '\t' || c = '\n' || c = '\r'

def skip (cs : List Char) : List Char := cs.dropWhile isBlank

def word : (w : List Char) → List Char → Option (List Char)
  | [], cs => some cs
  | x :: w, c :: cs => if x = c then word w cs else none
  | _ :: _, [] => none

def isDigit (c : Char) : Bool := '0' ≤ c && c ≤ '9'

/-- Reads digits, at least one. -/
def digits : Reader (List Char) := fun cs =>
  let ds := cs.takeWhile isDigit
  if ds.isEmpty then none else some (ds, cs.dropWhile isDigit)

/-- Reads the digits before the point: a zero, or digits that do not begin with one. -/
def magnitude : Reader (List Char) := fun cs =>
  match cs with
  | '0' :: rest => some (['0'], rest)
  | _ => digits cs

/-- Passes over a fraction, and tells whether there is one. -/
def fraction : Reader Bool := fun cs => do
  match cs with
  | '.' :: rest =>
    let (_, rest) ← digits rest
    return (true, rest)
  | _ => return (false, cs)

def skipSign : List Char → List Char
  | '+' :: rest => rest
  | '-' :: rest => rest
  | cs => cs

/-- Passes over an exponent, and tells whether there is one. -/
def exponent : Reader Bool := fun cs => do
  match cs with
  | c :: rest =>
    if c = 'e' ∨ c = 'E' then
      let (_, rest) ← digits (skipSign rest)
      return (true, rest)
    else return (false, cs)
  | [] => return (false, cs)

def readNumber : Reader Number := fun cs => do
  let (negative, cs) := match cs with
    | '-' :: rest => (true, rest)
    | _ => (false, cs)
  let (digits, cs) ← magnitude cs
  let (hasFraction, cs) ← fraction cs
  let (hasExponent, cs) ← exponent cs
  return ({ negative, digits, whole := !hasFraction && !hasExponent }, cs)

/-- Reads one item or more, with commas between them, up to a closing character; `fuel` bounds their
number. -/
def sequence {α : Type} (item : Reader α) (close : Char) : (fuel : Nat) → Reader (List α)
  | 0, _ => none
  | fuel + 1, cs => do
    let (a, cs) ← item cs
    match skip cs with
    | [] => none
    | c :: cs =>
      if c = ',' then
        let (rest, cs) ← sequence item close fuel cs
        return (a :: rest, cs)
      else if c = close then return ([a], cs)
      else none

/-- Reads items, no more of them than `fuel`, up to a closing character. -/
def items {α : Type} (item : Reader α) (close : Char) (fuel : Nat) : Reader (List α) := fun cs =>
  match skip cs with
  | [] => none
  | c :: rest => if c = close then some ([], rest) else sequence item close fuel cs

def member (value : Reader Json) : Reader (List Piece × Json) := fun cs => do
  match skip cs with
  | '"' :: cs =>
    let (name, cs) ← readString cs
    match skip cs with
    | ':' :: cs =>
      let (v, cs) ← value cs
      return ((name, v), cs)
    | _ => none
  | _ => none

/-- Reads a value that is nested less than `depth` deep; no list in it may have more items than its
own place leaves of that depth. -/
def value : (depth : Nat) → Reader Json
  | 0, _ => none
  | depth + 1, cs =>
    match skip cs with
    | '"' :: cs => (readString cs).map fun (pieces, cs) => (string pieces, cs)
    | '[' :: cs => (items (value depth) ']' depth cs).map fun (vs, cs) => (array vs, cs)
    | '\x7b' :: cs =>
      (items (member (value depth)) '\x7d' depth cs).map fun (ms, cs) => (object ms, cs)
    | 'n' :: cs => (word ['u', 'l', 'l'] cs).map fun cs => (null, cs)
    | 't' :: cs => (word ['r', 'u', 'e'] cs).map fun cs => (bool true, cs)
    | 'f' :: cs => (word ['a', 'l', 's', 'e'] cs).map fun cs => (bool false, cs)
    | cs => (readNumber cs).map fun (n, cs) => (number n, cs)

/-- The value that a text writes, if it writes one.  Each level and each item take a character at
least, so the length of the text bounds both. -/
def parse (s : String) : Option Json :=
  match value (s.length + 1) s.toList with
  | some (v, rest) => if (skip rest).isEmpty then some v else none
  | none => none

/-! ## §3. Writing -/

/-- The text of an object whose members have values that are written already, one member a line. -/
def layOut (members : List (String × List Char)) : List Char :=
  let line (m : String × List Char) : List Char :=
    ['\n', ' ', ' '] ++ quote m.1 ++ [':', ' '] ++ m.2
  ['\x7b'] ++ List.intercalate [','] (members.map line) ++ ['\n', '\x7d']

end Json

end HeaderPeer
