/-
  HeaderPeer.Hash.Merkle — the hash tree over a list of transaction hashes.

  A level is paired up into the level above it; a last entry without a partner is paired with
  itself.  That lets a longer list, one that repeats its own tail, have the same root; the walk of
  `duplicate?` finds such a repetition.
-/
import HeaderPeer.Hash.Hasher

namespace HeaderPeer.Merkle

/-! ## §1. The root -/

/-- One level up: neighbours are digested together, a single last entry with itself. -/
def pairUp (h : Hasher) : List Word256 → List Word256
  | left :: right :: rest => h.digestPair left right :: pairUp h rest
  | [single] => [h.digestPair single single]
  | [] => []

theorem length_pairUp (h : Hasher) :
    ∀ level : List Word256, (pairUp h level).length = (level.length + 1) / 2
  | _ :: _ :: rest => by
    simp only [pairUp, List.length_cons, length_pairUp h rest]
    omega
  | [_] => by simp [pairUp]
  | [] => by simp [pairUp]

/-- The root of the tree over `leaves`: levels are paired up until one entry is left.  No leaves
have the root zero. -/
def root (h : Hasher) : (leaves : List Word256) → Word256
  | [] => 0
  | [single] => single
  | left :: right :: rest => root h (pairUp h (left :: right :: rest))
termination_by leaves => leaves.length
decreasing_by
  rw [length_pairUp]
  simp only [List.length_cons]
  omega

/-! ## §2. Repeated tails -/

/-- The largest power of two below `count`, for a `count` of at least two, found by doubling
`guess` at most `steps` times. -/
def doubleBelow (count : Nat) : (steps guess : Nat) → Nat
  | 0, guess => guess
  | steps + 1, guess => if guess * 2 < count then doubleBelow count steps (guess * 2) else guess

/-- No repetition of a tail starts before this index. -/
def safePoint (count : Nat) : Nat := doubleBelow count count 1

/-- Walks back from `position` in doubling strides, down to the safe point, and stops at the first
entry that equals its predecessor. -/
def walkBack (hashes : Array Word256) (safe : Nat) : (fuel position stride : Nat) → Option Nat
  | 0, _, _ => none
  | fuel + 1, position, stride =>
    if position < safe then none
    -- entries are compared, not the roots of subtrees
    else if hashes[position]? = hashes[position - 1]? then some position
    else if position < stride then none
    else walkBack hashes safe fuel (position - stride) (stride * 2)

/-- An index whose entry repeats its predecessor, as in a list that repeats its own tail. -/
def duplicate? (hashes : List Word256) : Option Nat :=
  let count := hashes.length
  if count < 2 then none
  else
    walkBack hashes.toArray (safePoint count) count (count - 1)
      (if count % 2 = 1 then 2 else 1)

end HeaderPeer.Merkle
