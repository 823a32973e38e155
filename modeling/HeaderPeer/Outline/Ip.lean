/-
  HeaderPeer.Outline.Ip — network addresses as text.

  An address is written as eight groups of sixteen bits in hexadecimal.  The longest run of two or
  more groups that are zero, the first of several, is left out.  The mapped form of an IPv4 address
  ends in that address.
-/
import HeaderPeer.Message.Address
import HeaderPeer.Text.Quoted

namespace HeaderPeer.Ip

/-- The eight groups of an address, most significant first. -/
def groups (ip : Ip) : List Nat :=
  (List.range 8).map fun i => ip.toNat >>> (16 * (7 - i)) % 0x10000

/-- A run of zero groups: where it starts and how long it is. -/
structure Run where
  start : Nat
  length : Nat
  deriving DecidableEq, Repr

/-- The longest run of zero groups, the first of several.  `position` is where the first of the
groups stands, `current` the run that ends before it, and `best` the longest run so far. -/
def longestRun (position : Nat) (current best : Run) : List Nat → Run
  | [] => best
  | g :: rest =>
    if g = 0 then
      let current : Run :=
        if current.length = 0 then ⟨position, 1⟩ else ⟨current.start, current.length + 1⟩
      -- a run has to be longer than the best so far, so of equal ones the first stays
      let best := if best.length < current.length then current else best
      longestRun (position + 1) current best rest
    else longestRun (position + 1) ⟨0, 0⟩ best rest

/-- Groups in hexadecimal, with colons between them. -/
def joinGroups (gs : List Nat) : String :=
  ":".intercalate (gs.map fun g => String.ofList (Quoted.hexDigits g))

/-- An IPv4 address as four decimal numbers. -/
def v4Text (ip : BitVec 32) : String :=
  ".".intercalate ((List.range 4).map fun i => toString (ip.toNat >>> (8 * (3 - i)) % 0x100))

def text (ip : Ip) : String :=
  match ip.toV4? with
  | some v4 => "::ffff:" ++ v4Text v4
  | none =>
    let gs := ip.groups
    let run := longestRun 0 ⟨0, 0⟩ ⟨0, 0⟩ gs
    if run.length < 2 then joinGroups gs
    else joinGroups (gs.take run.start) ++ "::" ++ joinGroups (gs.drop (run.start + run.length))

end HeaderPeer.Ip
