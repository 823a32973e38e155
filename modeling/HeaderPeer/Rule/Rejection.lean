/-
  HeaderPeer.Rule.Rejection — what a peer is told about something that was refused.

  Each family of rules has its own type of faults.  A fault is reported as a rejection: a category,
  a short reason for machines and a detail for people.
-/
import HeaderPeer.Bytes

namespace HeaderPeer

/-- What a refusal says about the thing refused. -/
inductive Category where
  /-- It breaks a rule of the network. -/
  | consensus
  /-- It does not match its own commitment and may be a damaged copy of something valid. -/
  | mutated
  | invalidHeader
  /-- The header before it is not known yet. -/
  | missingPrevious
  /-- Its time is too far ahead; it may become valid later. -/
  | timeFuture
  | checkpoint
  deriving DecidableEq, Repr

/-- The name of a category for people. -/
def Category.title : Category → String
  | consensus => "Consensus"
  | mutated => "Mutated"
  | invalidHeader => "InvalidHeader"
  | missingPrevious => "MissingPrevious"
  | timeFuture => "TimeFuture"
  | checkpoint => "Checkpoint"

/-- A refusal as it is reported. -/
structure Rejection where
  category : Category
  reason : String
  detail : String
  deriving DecidableEq, Repr

/-- The wording of a refusal: the reason, and the detail if there is one. -/
def Rejection.text (r : Rejection) : String :=
  if r.detail = "" then r.reason else r.reason ++ " (" ++ r.detail ++ ")"

/-- A refusal of something that breaks a rule of the network. -/
def Rejection.consensus (reason detail : String) : Rejection := ⟨.consensus, reason, detail⟩

end HeaderPeer
