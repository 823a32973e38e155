/-
  HeaderPeer.Settings.Basic — what can be set of a node.
-/
import HeaderPeer.Message.Address
import HeaderPeer.Network

namespace HeaderPeer

structure Settings where
  network : Network
  /-- The newest protocol version that is agreed to. -/
  version : Int32
  /-- The largest payload that a peer may send. -/
  maxPayload : UInt32
  userAgent : String
  services : Services
  /-- Whether peers are asked to announce transactions. -/
  relay : Bool
  deriving DecidableEq, Repr

namespace Settings

/-- The settings that hold where nothing else is said. -/
def usual : Settings where
  network := .mainnet
  version := Protocol.currentVersion
  maxPayload := Protocol.maxPayload
  userAgent := "/bitnode:0.1.0/"
  services := Services.network.union .witness
  relay := false

end Settings

end HeaderPeer
