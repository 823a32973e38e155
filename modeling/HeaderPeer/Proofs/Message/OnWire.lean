/-
  HeaderPeer.Proofs.Message.OnWire — what of an announcement comes out at the other end.

  Two ends announce themselves before they have agreed on a version, and one of them even does so
  in the middle of agreeing.  That is safe because nothing of an announcement depends on the version
  in force (`write_onWire`).  What is lost on the way are the times of the addresses and, with an old
  version, the wish for transactions (`onWire`).
-/
import HeaderPeer.Proofs.Message.Representable

namespace HeaderPeer

open Wire

/-- The time of an address is all that an announcement leaves out of it. -/
theorem NetAddress.write_withoutAddressTime (l l' : Layout) (a : NetAddress) :
    Codec.write l.withoutAddressTime a = Codec.write l'.withoutAddressTime { a with time := 0 } :=
  rfl

namespace Announcement

/-- An announcement as it comes out at the other end: without the times of the addresses, and with
a wish for transactions if its version cannot say otherwise. -/
def onWire (a : Announcement) : Announcement :=
  { a with
    receiver := { a.receiver with time := 0 }
    sender := { a.sender with time := 0 }
    relay := if Protocol.relayVersion ≤ a.version then a.relay else true }

/-- **Nothing of an announcement depends on the version in force**, and what is lost on the way is
not written. -/
theorem write_onWire (l l' : Layout) (a : Announcement) : write l a.onWire = write l' a := by
  have haddress : ∀ b : NetAddress, Codec.write l.withoutAddressTime { b with time := 0 }
      = Codec.write l'.withoutAddressTime b := fun b =>
    (NetAddress.write_withoutAddressTime l' l b).symm
  have hrelay : (if Protocol.relayVersion ≤ a.version then Put.bool a.onWire.relay else .nothing)
      = if Protocol.relayVersion ≤ a.version then .bool a.relay else .nothing := by
    by_cases hnew : Protocol.relayVersion ≤ a.version
    · rw [if_pos hnew, if_pos hnew, onWire, if_pos hnew]
    · rw [if_neg hnew, if_neg hnew]
  show _ ++ _ ++ _ ++ Codec.write l.withoutAddressTime { a.receiver with time := 0 }
    ++ (if Protocol.senderVersion ≤ a.version then
        Codec.write l.withoutAddressTime { a.sender with time := 0 } ++ _ ++ _ ++ _
          ++ (if Protocol.relayVersion ≤ a.version then .bool a.onWire.relay else .nothing)
      else .nothing) = _
  rw [haddress, haddress, hrelay]
  rfl

/-- An announcement of a version that names its sender is read as it comes out. -/
theorem representable_onWire {a : Announcement} (h : Protocol.senderVersion ≤ a.version) :
    a.onWire.Representable where
  receiver := rfl
  sender := rfl
  old hold := absurd h (Int32.not_le.2 hold)
  relay hold := if_neg (Int32.not_le.2 hold)

end Announcement

theorem Message.payload_onWire (l l' : Layout) (a : Announcement) :
    (Message.version a.onWire).payload l = (Message.version a).payload l' := by
  show ((Announcement.write l a.onWire).run .empty).2.toBytes = _
  rw [Announcement.write_onWire l l']
  rfl

end HeaderPeer
