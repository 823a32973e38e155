/-
  HeaderPeer.Handler.Handshake — opening a connection and keeping it alive.

  Both ends announce themselves once.  An announcement puts the older of the two versions in force;
  it is answered by an acknowledgement, after an announcement of this node's own if the peer opened
  the connection.
-/
import HeaderPeer.Handler.Basic

namespace HeaderPeer

/-! ## §1. This node -/

/-- What this node announces about itself. -/
structure Identity where
  version : Int32
  services : Services
  userAgent : String
  relay : Bool
  /-- The number by which the node recognises its own announcements. -/
  nonce : UInt64
  deriving DecidableEq, Repr

/-- The announcement of a node whose best header is at `height`. -/
def Identity.announcement (id : Identity) (now : Int64) (receiver : NetAddress) (height : Nat) :
    Announcement where
  version := id.version
  services := id.services
  timestamp := now
  receiver
  sender := .unspecified
  nonce := id.nonce
  userAgent := id.userAgent
  startHeight := Int32.ofNat height
  relay := id.relay

/-! ## §2. The handler -/

namespace Handshake

/-- Whether an announcement is accepted from a peer: it is another node's, its version is not too
old, and it is the first one. -/
def check (id : Identity) (peer : Peer) (a : Announcement) : Except Offence Unit :=
  if a.nonce = id.nonce then .error .selfConnection
  else if a.version < Protocol.oldestVersion then .error (.obsoleteVersion a.version)
  else if peer.info.isSome then .error .repeatedAnnouncement
  else .ok ()

/-- Takes note of an announcement and answers it. -/
def announced (id : Identity) (now : Int64) (a : Announcement) : Act (List Message) := do
  let x ← get
  match check id x.peer a with
  | .error offence => .offend offence
  | .ok () =>
    -- the lower of the two versions is in force from here on
    .modifyPeer fun peer => (peer.record a).negotiate (min a.version id.version)
    let reply := id.announcement now a.sender x.worker.tree.bestNode.height
    return if x.peer.outbound then [.verack] else [.version reply, .verack]

/-- Answers announcements, acknowledgements, pings and wishes. -/
def handle (id : Identity) (now : Int64) : Message → Act (List Message)
  | .version a => announced id now a
  | .verack => do
    .modifyPeer Peer.completeHandshake
    return []
  | .ping nonce => return [.pong nonce]
  | .sendHeaders => do
    .modifyPeer Peer.preferHeaders
    return []
  | _ => return []

end Handshake

/-- The handler of announcements and of what keeps a connection alive. -/
def Handler.handshake (id : Identity) : Handler where
  name := "handshake"
  interests := [.version, .verack, .ping, .sendHeaders]
  handle := Handshake.handle id

end HeaderPeer
