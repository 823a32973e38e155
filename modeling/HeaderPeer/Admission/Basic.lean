/-
  HeaderPeer.Admission.Basic — taking batches of headers into the tree.

  The headers of a batch are taken in one by one, each against the tree that the ones before it
  left.  The first header that is refused ends the batch; what was taken in before it stays.
-/
import HeaderPeer.Event.Basic

namespace HeaderPeer

/-- How headers are taken in: against which rules, and how the best one is chosen. -/
structure Admission where
  params : Params
  rules : List HeaderRule
  /-- The tree after a node has been added, with its best header moved or not. -/
  select : HeaderTree → TreeNode → HeaderTree

namespace Admission

/-- The higher header is the better one; of several at one height, the first that came. -/
def highest (t : HeaderTree) (n : TreeNode) : HeaderTree :=
  if t.bestNode.height < n.height then t.setBest n.id else t

/-- The usual way: the usual rules, and the highest header is best. -/
def standard (params : Params) : Admission where
  params
  rules := HeaderRule.standard
  select := highest

/-! ## §1. One header -/

/-- A fault of the admission itself, not of a header. -/
inductive Failure where
  /-- A header passed the rules although the one before it is not in the tree. -/
  | orphan (cause : HeaderTree.MissingParent)
  | crashed
  deriving DecidableEq, Repr

def Failure.message : Failure → String
  | .orphan cause => "Chain state error: " ++ cause.message
  | .crashed => "header validator panicked"

/-- Why a batch is not followed to its end. -/
inductive Stop where
  | refused (header : Header) (fault : HeaderFault)
  | failed (failure : Failure)
  deriving DecidableEq, Repr

/-- What the rules say of a header.  The first header of the network is not put to them. -/
def judge (a : Admission) (now : Int64) (tree : HeaderTree) (header : Header) : Verdict :=
  if header.hash = a.params.genesisHash then .pass .none
  else HeaderTrial.check { header, tree, params := a.params, now } a.rules .none

/-- Puts a header into the tree and lets the best header move if it was not there before. -/
def place (a : Admission) (tree : HeaderTree) (header : Header) :
    Except Stop HeaderTree.Insertion :=
  match tree.insert header with
  | .error cause => .error (.failed (.orphan cause))
  | .ok insertion =>
    -- a header that comes again moves nothing
    if insertion.fresh then
      .ok { insertion with tree := a.select insertion.tree insertion.node }
    else .ok insertion

def accept (a : Admission) (now : Int64) (tree : HeaderTree) (header : Header) :
    Except Stop HeaderTree.Insertion :=
  match a.judge now tree header with
  | .pass _ => a.place tree header
  | .reject _ fault => .error (.refused header fault)
  | .crash => .error (.failed .crashed)

/-! ## §2. Batches -/

/-- What has come of a batch so far. -/
structure Tally where
  tree : HeaderTree
  /-- How many headers were valid. -/
  total : Nat
  /-- How many of them were not known before. -/
  fresh : Nat
  /-- The last valid header and its place. -/
  last : Option (Header × TreeNode)

namespace Tally

def start (tree : HeaderTree) : Tally := ⟨tree, 0, 0, none⟩

def add (t : Tally) (header : Header) (insertion : HeaderTree.Insertion) : Tally where
  tree := insertion.tree
  total := t.total + 1
  fresh := if insertion.fresh then t.fresh + 1 else t.fresh
  last := some (header, insertion.node)

end Tally

/-- Takes headers in, up to the end or up to the first at which it stops. -/
def run (a : Admission) (now : Int64) : List Header → Tally → Tally × Option Stop
  | [], t => (t, none)
  | header :: rest, t =>
    match a.accept now t.tree header with
    | .ok insertion => a.run now rest (t.add header insertion)
    | .error stop => (t, some stop)

/-- Taking in one list and then another is taking in both together. -/
theorem run_append (a : Admission) (now : Int64) (xs ys : List Header) (t : Tally) :
    a.run now (xs ++ ys) t =
      match a.run now xs t with
      | (t, none) => a.run now ys t
      | (t, some stop) => (t, some stop) := by
  induction xs generalizing t with
  | nil => rfl
  | cons header rest ih =>
    rw [List.cons_append, run, run]
    split
    · exact ih _
    · rfl

/-- Headers from one peer, in the order of their chain. -/
structure Batch where
  headers : List Header
  peer : PeerName
  deriving DecidableEq, Repr

/-- Takes a batch in: the tree it leaves, and the report on it. -/
def batch (a : Admission) (now : Int64) (tree : HeaderTree) (b : Batch) :
    HeaderTree × Except Failure Event :=
  match a.run now b.headers (.start tree) with
  | (t, none) => (t.tree, .ok (.accepted t.total t.fresh t.last b.peer))
  | (t, some (.refused header fault)) => (t.tree, .ok (.refused header fault b.peer))
  | (t, some (.failed failure)) => (t.tree, .error failure)

end Admission

end HeaderPeer
