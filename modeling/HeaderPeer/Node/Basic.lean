/-
  HeaderPeer.Node.Basic — a node: one tree of headers, one worker, and what all connections share.

  The worker does not work before the node has been started.  Whatever it reports is published to
  the subscribers of the bus; a failure of it stops the node.
-/
import HeaderPeer.Admission.Latch
import HeaderPeer.Connection
import HeaderPeer.Event.Bus
import HeaderPeer.Settings.Basic

namespace HeaderPeer

/-- A node between two things that happen to it. -/
structure Node where
  settings : Settings
  params : Params
  identity : Identity
  worker : Worker
  /-- Whether the worker has begun to work. -/
  started : Bool
  latch : Latch
  bus : Bus
  /-- The number of the next peer. -/
  nextPeer : UInt64

namespace Node

/-! ## §1. Parts -/

/-- A node with the given settings and parameters that has not been started; `nonce` tells its
announcements from those of others. -/
def create (settings : Settings) (params : Params) (nonce : UInt64) : Node where
  settings
  params
  identity := {
    version := settings.version
    services := settings.services
    userAgent := settings.userAgent
    relay := settings.relay
    nonce }
  worker := .start (.ofGenesis params.genesis)
  started := false
  latch := .clear
  bus := .empty
  nextPeer := 1

def tree (n : Node) : HeaderTree := n.worker.tree

/-- How the frames of the node's network look. -/
def framing (n : Node) : Framing where
  magic := n.params.network.magic
  maxPayload := n.settings.maxPayload
  hasher := .doubleSha256

/-- Who answers messages: each kind is taken by one handler at most. -/
def router (n : Node) : Router :=
  ⟨[.handshake n.identity, .headers, .blocks BlockRule.standard n.params .doubleSha256]⟩

def endpoint (n : Node) (now : Int64) : Endpoint where
  framing := n.framing
  router := n.router
  now

/-- What the node announces to a receiver. -/
def announcement (n : Node) (now : Int64) (receiver : NetAddress) : Announcement :=
  n.identity.announcement now receiver n.tree.bestNode.height

/-- Lets the node's worker work from now on. -/
def start (n : Node) : Node := { n with started := true }

/-- Gives a number to one more peer. -/
def newPeer (n : Node) (remote : String) (outbound : Bool) : Peer × Node :=
  (.fresh { id := n.nextPeer, remote } outbound, { n with nextPeer := n.nextPeer + 1 })

/-! ## §2. The worker's turn -/

/-- Publishes events, oldest first. -/
def publish (n : Node) (events : List Event) : Node :=
  { n with bus := events.foldl Bus.publish n.bus }

/-- Lets the worker work until there is nothing left to do. -/
def work (n : Node) (now : Int64) : Node :=
  if n.started then
    -- a node that is to stop cancels its worker before giving it a turn
    let worker := if n.latch.shutdown then n.worker.cancel else n.worker
    let shift := worker.work (.standard n.params) now
    let latch := match shift.failure with
      | some failure => n.latch.report failure.message
      | none => n.latch
    { n with worker := shift.worker, latch }.publish shift.events
  else n

/-- Stops the worker and every connection. -/
def stop (n : Node) (now : Int64) : Node := { n with latch := n.latch.close }.work now

end Node

end HeaderPeer
