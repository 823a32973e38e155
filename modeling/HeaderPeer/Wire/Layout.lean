/-
  HeaderPeer.Wire.Layout — the switches that decide how a value is laid out on the wire.
-/
namespace HeaderPeer.Wire

/-- What the two ends of a connection agree on before a value is written.  A value that contains
others passes its layout on to them, with a switch flipped where their form differs. -/
structure Layout where
  /-- The protocol version in force. -/
  version : Int32
  /-- Transactions carry their witness data. -/
  witness : Bool := true
  /-- Headers stand inside a block and carry no transaction count of their own. -/
  bareHeader : Bool := false
  /-- Network addresses carry the time they were last seen. -/
  addressTime : Bool := true
  deriving DecidableEq, Repr

namespace Layout

/-- The layout with witness data left out. -/
def withoutWitness (l : Layout) : Layout := { l with witness := false }

/-- The layout of a header inside a block. -/
def insideBlock (l : Layout) : Layout := { l with bareHeader := true }

/-- The layout of an address that carries no time. -/
def withoutAddressTime (l : Layout) : Layout := { l with addressTime := false }

/-- The layout in which transactions are hashed together with their witness data. -/
def full : Layout := { version := 0 }

/-- The layout in which transactions are hashed and measured: without witness data. -/
def stripped : Layout := full.withoutWitness

end Layout

end HeaderPeer.Wire
