/-
  HeaderPeer.Protocol — protocol versions and the limits of the wire format.
-/
namespace HeaderPeer.Protocol

/-! ## §1. Versions -/

/-- The newest version spoken here. -/
def currentVersion : Int32 := 70016

/-- The version in force before both ends have told theirs. -/
def initialVersion : Int32 := 209

/-- Peers with an older version are turned away. -/
def oldestVersion : Int32 := 31800

/-- From here on an announcement names its sender. -/
def senderVersion : Int32 := 106

/-- From here on addresses carry the time they were last seen. -/
def addressTimeVersion : Int32 := 31402

/-- Above this version pings and pongs carry a nonce. -/
def pingNonceVersion : Int32 := 60000

/-- From here on an announcement says whether transactions are wanted. -/
def relayVersion : Int32 := 70001

/-! ## §2. Limits -/

/-- Bytes of a command name in a frame. -/
def commandSize : Nat := 12

/-- Bytes of a frame before its payload: magic, command, length and checksum. -/
def frameHeaderSize : Nat := 24

/-- The largest payload accepted unless settings say otherwise. -/
def maxPayload : UInt32 := 4000000

/-- The most headers that one message may bring. -/
def maxHeaders : Nat := 2000

end HeaderPeer.Protocol
