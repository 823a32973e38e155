/-
  HeaderPeer.Peer — what is known about the other end of a connection.
-/
import HeaderPeer.Message.Announcement

namespace HeaderPeer

/-! ## §1. Traffic -/

/-- Bytes exchanged with a peer; each counter starts again at zero after its largest value. -/
structure Traffic where
  /-- Bytes of frames that were understood. -/
  received : UInt64
  sent : UInt64
  /-- Bytes that were read and dropped. -/
  wasted : UInt64
  deriving DecidableEq, Repr

namespace Traffic

def none : Traffic := ⟨0, 0, 0⟩

def receive (t : Traffic) (n : Nat) : Traffic := { t with received := t.received + UInt64.ofNat n }

def send (t : Traffic) (n : Nat) : Traffic := { t with sent := t.sent + UInt64.ofNat n }

def waste (t : Traffic) (n : Nat) : Traffic := { t with wasted := t.wasted + UInt64.ofNat n }

@[simp] theorem receive_zero (t : Traffic) : t.receive 0 = t := by
  simp [receive]

@[simp] theorem send_zero (t : Traffic) : t.send 0 = t := by
  simp [send]

@[simp] theorem waste_zero (t : Traffic) : t.waste 0 = t := by
  simp [waste]

theorem receive_add (t : Traffic) (n m : Nat) : t.receive (n + m) = (t.receive n).receive m := by
  simp [receive, UInt64.ofNat_add, UInt64.add_assoc]

theorem send_add (t : Traffic) (n m : Nat) : t.send (n + m) = (t.send n).send m := by
  simp [send, UInt64.ofNat_add, UInt64.add_assoc]

theorem waste_add (t : Traffic) (n m : Nat) : t.waste (n + m) = (t.waste n).waste m := by
  simp [waste, UInt64.ofNat_add, UInt64.add_assoc]

theorem waste_receive (t : Traffic) (n m : Nat) :
    (t.receive n).waste m = (t.waste m).receive n := rfl

end Traffic

/-! ## §2. Peers -/

/-- How a peer is named in reports. -/
structure PeerName where
  id : UInt64
  remote : String
  deriving DecidableEq, Repr

def PeerName.text (name : PeerName) : String :=
  "peer=" ++ toString name.id.toNat ++ " (" ++ name.remote ++ ")"

/-- What a peer has told about itself. -/
structure PeerInfo where
  version : Int32
  services : Services
  userAgent : String
  startHeight : Int32
  relay : Bool
  deriving DecidableEq, Repr

/-- What is kept of an announcement. -/
def PeerInfo.ofAnnouncement (a : Announcement) : PeerInfo where
  version := a.version
  services := a.services
  userAgent := a.userAgent
  startHeight := a.startHeight
  relay := a.relay

/-- The other end of a connection. -/
structure Peer where
  name : PeerName
  /-- Whether the connection was opened from here. -/
  outbound : Bool
  /-- The protocol version in force. -/
  version : Int32
  handshakeDone : Bool
  /-- Whether the peer wants new blocks to be told by their headers. -/
  prefersHeaders : Bool
  info : Option PeerInfo
  traffic : Traffic
  deriving DecidableEq, Repr

namespace Peer

def fresh (name : PeerName) (outbound : Bool) : Peer where
  name
  outbound
  version := Protocol.initialVersion
  handshakeDone := false
  prefersHeaders := false
  info := none
  traffic := .none

/-- The layout of what is exchanged with the peer. -/
def layout (p : Peer) : Wire.Layout := { version := p.version }

/-- The peer once it has told about itself. -/
def record (p : Peer) (a : Announcement) : Peer := { p with info := some (.ofAnnouncement a) }

def negotiate (p : Peer) (version : Int32) : Peer := { p with version }

def completeHandshake (p : Peer) : Peer := { p with handshakeDone := true }

def preferHeaders (p : Peer) : Peer := { p with prefersHeaders := true }

/-! ### Traffic with the peer -/

def receive (p : Peer) (n : Nat) : Peer := { p with traffic := p.traffic.receive n }

def send (p : Peer) (n : Nat) : Peer := { p with traffic := p.traffic.send n }

def waste (p : Peer) (n : Nat) : Peer := { p with traffic := p.traffic.waste n }

@[simp] theorem layout_send (p : Peer) (n : Nat) : (p.send n).layout = p.layout := rfl

@[simp] theorem layout_waste (p : Peer) (n : Nat) : (p.waste n).layout = p.layout := rfl

@[simp] theorem receive_zero (p : Peer) : p.receive 0 = p := by
  simp [receive]

@[simp] theorem send_zero (p : Peer) : p.send 0 = p := by
  simp [send]

@[simp] theorem waste_zero (p : Peer) : p.waste 0 = p := by
  simp [waste]

theorem receive_add (p : Peer) (n m : Nat) : p.receive (n + m) = (p.receive n).receive m := by
  simp [receive, Traffic.receive_add]

theorem send_add (p : Peer) (n m : Nat) : p.send (n + m) = (p.send n).send m := by
  simp [send, Traffic.send_add]

theorem waste_add (p : Peer) (n m : Nat) : p.waste (n + m) = (p.waste n).waste m := by
  simp [waste, Traffic.waste_add]

/-- The two counters do not touch each other. -/
theorem waste_receive (p : Peer) (n m : Nat) : (p.receive n).waste m = (p.waste m).receive n := rfl

end Peer

end HeaderPeer
