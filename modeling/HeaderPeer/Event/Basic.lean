/-
  HeaderPeer.Event.Basic — what is reported about a batch of headers.
-/
import HeaderPeer.Peer
import HeaderPeer.Rule.Header

namespace HeaderPeer

/-- The report on one batch of headers from one peer. -/
inductive Event where
  /-- All of the batch was valid: `total` headers, of which `fresh` were not known before, the last
  of them in the place given. -/
  | accepted (total fresh : Nat) (last : Option (Header × TreeNode)) (peer : PeerName)
  /-- A header was refused; the headers before it in the batch were taken in. -/
  | refused (header : Header) (fault : HeaderFault) (peer : PeerName)
  deriving DecidableEq, Repr

namespace Event

def peer : Event → PeerName
  | accepted _ _ _ peer => peer
  | refused _ _ peer => peer

def text : Event → String
  | accepted total fresh last peer =>
    "headers validated from " ++ peer.text ++ ": " ++ toString total ++ " validated, "
      ++ toString fresh ++ " new"
      ++ match last with
        | some (_, node) => ", last " ++ node.hash.text ++ " at height " ++ toString node.height
        | none => ""
  | refused header fault peer =>
    "header " ++ header.hash.text ++ " from " ++ peer.text ++ " rejected: " ++ fault.rejection.text

end Event

end HeaderPeer
