/-
  HeaderPeer.HeaderTree — the tree of headers that were admitted, with a best header.

  Nodes are numbered in the order in which they came, and a parent is named by its number, so the
  tree only ever grows at its leaves.  Headers are found by the hash that they carry.  The best
  header is moved by whoever decides which header is best.
-/
import HeaderPeer.Header
import HeaderPeer.Word256.Text
import Std.Data.HashMap

namespace HeaderPeer

/-! ## §1. The tree -/

/-- A header in its place. -/
structure TreeNode where
  /-- The node's number, in order of arrival. -/
  id : Nat
  header : Header
  /-- How many headers this one is above the first.  A 32-bit number holds it in a tree of fewer than
  2^32 headers (`Consistent.bounded`). -/
  height : Nat
  /-- The number of the node before this one; the first has none. -/
  parent : Option Nat
  deriving DecidableEq, Repr

def TreeNode.hash (n : TreeNode) : Word256 := n.header.hash

/-- Headers reachable from the first one. -/
structure HeaderTree where
  /-- The nodes by number. -/
  nodes : Array TreeNode
  /-- The number of the node with a hash. -/
  index : Std.HashMap Word256 Nat
  /-- The number of the best header. -/
  best : Nat
  best_lt : best < nodes.size

namespace HeaderTree

/-- The tree that holds the first header only. -/
def ofGenesis (genesis : Header) : HeaderTree where
  nodes := #[{ id := 0, header := genesis, height := 0, parent := none }]
  index := (∅ : Std.HashMap Word256 Nat).insert genesis.hash 0
  best := 0
  best_lt := by simp

def size (t : HeaderTree) : Nat := t.nodes.size

def node? (t : HeaderTree) (id : Nat) : Option TreeNode := t.nodes[id]?

def genesis (t : HeaderTree) : TreeNode :=
  have := t.best_lt
  t.nodes[0]

def bestNode (t : HeaderTree) : TreeNode :=
  have := t.best_lt
  t.nodes[t.best]

/-- The node whose header carries a hash. -/
def find? (t : HeaderTree) (hash : Word256) : Option TreeNode := t.index[hash]?.bind t.node?

def contains (t : HeaderTree) (hash : Word256) : Bool := t.index.contains hash

def parent? (t : HeaderTree) (n : TreeNode) : Option TreeNode := n.parent.bind t.node?

/-- Makes the node with number `id` the best one, if there is such a node. -/
def setBest (t : HeaderTree) (id : Nat) : HeaderTree :=
  if h : id < t.nodes.size then { t with best := id, best_lt := h } else t

/-! ## §2. Growth -/

/-- A header cannot be put into the tree before the header that it names. -/
structure MissingParent where
  hash : Word256
  previous : Word256
  deriving DecidableEq, Repr

def MissingParent.message (e : MissingParent) : String :=
  "Previous header " ++ e.previous.text ++ " of " ++ e.hash.text ++ " is not indexed"

/-- Where a header stands after it was put into the tree. -/
structure Insertion where
  node : TreeNode
  /-- Whether the header was not there before. -/
  fresh : Bool
  tree : HeaderTree

/-- The tree with one more node, a child of `parent`. -/
def push (t : HeaderTree) (parent : TreeNode) (header : Header) : Insertion :=
  let node : TreeNode :=
    { id := t.nodes.size, header, height := parent.height + 1, parent := some parent.id }
  { node
    fresh := true
    tree := {
      nodes := t.nodes.push node
      index := t.index.insert header.hash node.id
      best := t.best
      best_lt := by
        have := t.best_lt
        simp only [Array.size_push]
        omega } }

/-- Puts a header into the tree, above the header that it names.  A header whose hash is known
already is not put in again: the node that is there is the answer. -/
def insert (t : HeaderTree) (header : Header) : Except MissingParent Insertion :=
  match t.find? header.hash with
  | some node => .ok { node, fresh := false, tree := t }
  | none =>
    match t.find? header.previous with
    | some parent => .ok (t.push parent header)
    | none => .error { hash := header.hash, previous := header.previous }

/-! ## §3. Ancestors and locators -/

/-- Goes from node to parent until a node is no higher than `height`, in at most `fuel` steps. -/
def descend (t : HeaderTree) (height : Nat) : (fuel : Nat) → TreeNode → Option TreeNode
  | 0, _ => none
  | fuel + 1, n =>
    if n.height ≤ height then some n
    else (t.parent? n).bind (descend t height fuel)

/-- The node at `height` on the way from `n` to the first node. -/
def ancestor? (t : HeaderTree) (n : TreeNode) (height : Nat) : Option TreeNode :=
  if n.height < height then none else t.descend height t.size n

/-- How many of the newest hashes a locator lists one by one. -/
def denseEntries : Nat := 10

/-- The hashes of a locator from node `n` on, after `listed` others; from the tenth hash on, the
`stride` to the next one doubles with each hash. -/
def locatorFrom (t : HeaderTree) : (fuel listed stride : Nat) → TreeNode → List Word256
  | 0, _, _, _ => []
  | fuel + 1, listed, stride, n =>
    if n.height = 0 then [n.hash]
    else
      -- a stride beyond the first header ends at the first header
      let stride := if denseEntries ≤ listed + 1 then 2 * stride else stride
      match t.ancestor? n (n.height - stride) with
      | some next => n.hash :: locatorFrom t fuel (listed + 1) stride next
      | none => [n.hash]

/-- The locator of the chain that ends in the best header: its last ten hashes, then ever fewer,
and at last the first. -/
def locator (t : HeaderTree) : Locator := ⟨t.locatorFrom t.size 0 1 t.bestNode⟩

end HeaderTree

end HeaderPeer
