/-
  HeaderPeer.Rule.Header — what is checked of a header before it is put into the tree.

  The rules run in order.  A rule may settle the matter: a header that matches a checkpoint is
  valid without the rules that follow.  What one rule finds out, above all the header's parent,
  later rules use.
-/
import HeaderPeer.HeaderTree
import HeaderPeer.Network
import HeaderPeer.Rule.Rejection
import HeaderPeer.Text.Quoted

namespace HeaderPeer

/-! ## §1. Faults -/

inductive HeaderFault where
  | unknownPrevious (previous : Word256)
  | checkpoint (height : Nat) (expected : Word256)
  | oldVersion (version : Int32)
  | timeTooNew (time : UInt32) (limit : Int64)
  | bitsOutOfRange (bits : Compact)
  | aboveTarget (hash target : Word256)
  deriving DecidableEq, Repr

/-- Eight hexadecimal digits of a 32-bit word. -/
def hexWord (w : UInt32) : String :=
  "0x" ++ String.ofList ((Bytes.ofNatBE 4 w.toNat).flatMap Quoted.hexPair)

def HeaderFault.rejection : HeaderFault → Rejection
  | .unknownPrevious previous =>
    ⟨.missingPrevious, "prev-blk-not-found", "previous header " ++ previous.text ++ " not found"⟩
  | .checkpoint height expected =>
    ⟨.checkpoint, "checkpoint-mismatch",
      "height " ++ toString height ++ " expects " ++ expected.text⟩
  | .oldVersion version =>
    ⟨.invalidHeader, "bad-version", "version " ++ hexWord version.toUInt32 ++ " is obsolete"⟩
  | .timeTooNew time limit =>
    ⟨.timeFuture, "time-too-new",
      "timestamp " ++ toString time.toNat ++ " is after " ++ toString limit.toInt⟩
  | .bitsOutOfRange bits =>
    ⟨.invalidHeader, "bad-diffbits", "bits " ++ hexWord bits ++ " out of range"⟩
  | .aboveTarget hash target =>
    ⟨.invalidHeader, "high-hash", "hash " ++ hash.text ++ " above target " ++ target.text⟩

/-! ## §2. Rules -/

structure HeaderTrial where
  header : Header
  tree : HeaderTree
  params : Params
  /-- The clock, in seconds since the start of 1970. -/
  now : Int64

/-- What the rules have found out so far. -/
structure Findings where
  parent : Option TreeNode
  /-- Whether the header is valid whatever the rules that follow would say. -/
  settled : Bool

namespace Findings

def none : Findings := ⟨.none, false⟩

def height? (f : Findings) : Option Nat := f.parent.map fun node => node.height + 1

end Findings

/-- What a rule says. -/
inductive Verdict where
  /-- Nothing is wrong, and this is known now. -/
  | pass (findings : Findings)
  /-- This is wrong, with this known by then. -/
  | reject (findings : Findings) (fault : HeaderFault)
  /-- The rule broke down and says nothing. -/
  | crash

structure HeaderRule where
  name : String
  check : HeaderTrial → Findings → Verdict

namespace HeaderRule

/-- The header before this one is in the tree. -/
def previous : HeaderRule where
  name := "previous-header"
  check t f :=
    match t.tree.find? t.header.previous with
    | some node => .pass { f with parent := some node }
    | none => .reject f (.unknownPrevious t.header.previous)

/-- A header at the height of a checkpoint has the checkpoint's hash, and that settles it. -/
def checkpoint : HeaderRule where
  name := "checkpoint"
  check t f :=
    match f.height? with
    -- without a parent there is no height at which a checkpoint could be
    | none => .pass f
    | some height =>
      match t.params.checkpoints.at? height with
      | none => .pass f
      | some expected =>
        if expected = t.header.hash then .pass { f with settled := true }
        else .reject f (.checkpoint height expected)

/-- The version is not an old one. -/
def version : HeaderRule where
  name := "header-version"
  check t f :=
    if t.header.version < t.params.minHeaderVersion then .reject f (.oldVersion t.header.version)
    else .pass f

/-- The header is not too far ahead of the clock.  The sum is one of 64-bit numbers and wraps around
at the ends of the clock. -/
def time : HeaderRule where
  name := "time-too-new"
  check t f :=
    let limit := t.now + t.params.maxFutureTime
    if limit < Int64.ofNat t.header.time.toNat then .reject f (.timeTooNew t.header.time limit)
    else .pass f

/-- The target is allowed and the hash does not exceed it. -/
def proofOfWork : HeaderRule where
  name := "proof-of-work"
  check t f :=
    match t.header.bits.target?.filter (· ≤ t.params.powLimit) with
    | none => .reject f (.bitsOutOfRange t.header.bits)
    | some target =>
      if target < t.header.hash then .reject f (.aboveTarget t.header.hash target) else .pass f

def standard : List HeaderRule := [previous, checkpoint, version, time, proofOfWork]

end HeaderRule

/-- Runs rules in order, up to the first that does not pass or the first that settles the
matter. -/
def HeaderTrial.check (t : HeaderTrial) : List HeaderRule → Findings → Verdict
  | [], f => .pass f
  | rule :: rest, f =>
    match rule.check t f with
    | .pass f => if f.settled then .pass f else t.check rest f
    | verdict => verdict

end HeaderPeer
