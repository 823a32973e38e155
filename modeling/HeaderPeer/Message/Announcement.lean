/-
  HeaderPeer.Message.Announcement — what a node tells about itself, and its requests for headers.
-/
import HeaderPeer.Header
import HeaderPeer.Message.Address

namespace HeaderPeer

open Wire

/-! ## §1. Announcements -/

/-- What a node tells about itself when a connection opens.  The form depends on the version that
is told, not on the version in force, which is still to be agreed on. -/
structure Announcement where
  version : Int32
  services : Services
  /-- The sender's clock, in seconds since the start of 1970. -/
  timestamp : Int64
  receiver : NetAddress
  sender : NetAddress
  /-- A number by which a node recognises its own announcements. -/
  nonce : UInt64
  userAgent : String
  /-- The height of the sender's best header. -/
  startHeight : Int32
  /-- Whether the sender wants to hear of transactions. -/
  relay : Bool
  deriving DecidableEq, Repr

namespace Announcement

def write (l : Layout) (a : Announcement) : Put :=
  let addresses := l.withoutAddressTime
  .int32LE a.version ++ Codec.write l a.services ++ .int64LE a.timestamp
    ++ Codec.write addresses a.receiver
    ++ (if Protocol.senderVersion ≤ a.version then
          Codec.write addresses a.sender ++ .uint64LE a.nonce ++ .text a.userAgent
            ++ .int32LE a.startHeight
            ++ (if Protocol.relayVersion ≤ a.version then .bool a.relay else .nothing)
        else .nothing)

/-- Reads the wish for transactions; a message that ends before it wants them. -/
def readRelay (version : Int32) : Get Bool := do
  if Protocol.relayVersion ≤ version then
    if ← Get.atEnd then return true else Get.bool
  else return true

/-- Reads what follows the first four fields. -/
def readRest (l : Layout) (version : Int32) (services : Services) (timestamp : Int64)
    (receiver : NetAddress) : Get Announcement := do
  if Protocol.senderVersion ≤ version then
    let sender ← Codec.read l.withoutAddressTime
    let nonce ← Get.uint64LE
    let userAgent ← Get.text
    let startHeight ← Get.int32LE
    let relay ← readRelay version
    return { version, services, timestamp, receiver, sender, nonce, userAgent, startHeight, relay }
  else
    return {
      version, services, timestamp, receiver, sender := .unspecified, nonce := 0
      userAgent := "", startHeight := 0, relay := true }

def read (l : Layout) : Get Announcement := do
  let version ← Get.int32LE
  let services ← Codec.read l
  let timestamp ← Get.int64LE
  let receiver ← Codec.read l.withoutAddressTime
  readRest l version services timestamp receiver

end Announcement

instance : Codec Announcement where
  write := Announcement.write
  read := Announcement.read

/-! ## §2. Requests for headers -/

/-- A request for the headers that follow the newest one shared. -/
structure HeaderRequest where
  version : Int32
  locator : Locator
  /-- The last header wanted; zero asks for as many as possible. -/
  stop : Word256
  deriving DecidableEq, Repr

instance : Codec HeaderRequest where
  write l r := .int32LE r.version ++ Codec.write l r.locator ++ .word256 r.stop
  read l := do
    let version ← Get.int32LE
    let locator ← Codec.read l
    let stop ← Get.word256
    return { version, locator, stop }

end HeaderPeer
