/-
  HeaderPeer.Message.Address — network addresses, and the services offered there.
-/
import HeaderPeer.Protocol
import HeaderPeer.Wire.Codec

namespace HeaderPeer

open Wire

/-! ## §1. Services -/

/-- The services a node offers, one bit each.  Bits without a name are kept: a peer may offer
services that are not known here. -/
structure Services where
  bits : UInt64
  deriving DecidableEq, Repr

namespace Services

def none : Services := ⟨0⟩

/-- The named services, in the order of their bits. -/
def named : List (String × Services) :=
  [("NETWORK", ⟨1⟩), ("GETUTXO", ⟨2⟩), ("BLOOM", ⟨4⟩), ("WITNESS", ⟨8⟩),
   ("COMPACT_FILTERS", ⟨64⟩), ("NETWORK_LIMITED", ⟨1024⟩)]

/-- Serves the whole block chain. -/
def network : Services := ⟨1⟩

/-- Serves blocks with witness data. -/
def witness : Services := ⟨8⟩

def isEmpty (s : Services) : Bool := s.bits = 0

def union (s t : Services) : Services := ⟨s.bits ||| t.bits⟩

def inter (s t : Services) : Services := ⟨s.bits &&& t.bits⟩

/-- The services of `s` that `t` lacks. -/
def without (s t : Services) : Services := ⟨s.bits &&& ~~~ t.bits⟩

/-- Whether `s` has all services of `t`. -/
def contains (s t : Services) : Bool := s.bits &&& t.bits = t.bits

/-- Whether `s` and `t` have a service in common. -/
def intersects (s t : Services) : Bool := !(s.inter t).isEmpty

def allNamed : Services := named.foldl (fun s entry => s.union entry.2) none

def names (s : Services) : List String :=
  (named.filter fun entry => s.contains entry.2).map Prod.fst

end Services

instance : Codec Services where
  write _ s := .uint64LE s.bits
  read _ := do return ⟨← Get.uint64LE⟩

/-! ## §2. Addresses -/

/-- An IPv6 address; an IPv4 address is held in its mapped form. -/
abbrev Ip := BitVec 128

namespace Ip

/-- The address that stands for "no address". -/
def unspecified : Ip := 0

/-- The IPv6 form of an IPv4 address. -/
def ofV4 (v4 : BitVec 32) : Ip := BitVec.ofNat 128 (0xffff <<< 32 + v4.toNat)

/-- The IPv4 address of which this is the mapped form. -/
def toV4? (ip : Ip) : Option (BitVec 32) :=
  if ip.toNat >>> 32 = 0xffff then some (BitVec.ofNat 32 ip.toNat) else none

end Ip

/-- Where a node listens, in the form of its own family. -/
inductive Socket where
  | v4 (ip : BitVec 32) (portNumber : UInt16)
  | v6 (ip : Ip) (portNumber : UInt16)
  deriving DecidableEq, Repr

/-- A node's address as it is told to others. -/
structure NetAddress where
  time : UInt32
  services : Services
  ip : Ip
  portNumber : UInt16
  deriving DecidableEq, Repr

namespace NetAddress

def unspecified : NetAddress := ⟨0, .none, .unspecified, 0⟩

def socket (a : NetAddress) : Socket :=
  match a.ip.toV4? with
  | some v4 => .v4 v4 a.portNumber
  | none => .v6 a.ip a.portNumber

/-- Whether addresses carry their time under a layout. -/
def hasTime (l : Layout) : Bool := l.addressTime && Protocol.addressTimeVersion ≤ l.version

def write (l : Layout) (a : NetAddress) : Put :=
  (if hasTime l then .uint32LE a.time else .nothing) ++ Codec.write l a.services
    ++ .fixed 16 (Bytes.ofNatBE 16 a.ip.toNat) ++ .uint16BE a.portNumber

def read (l : Layout) : Get NetAddress := do
  let time ← if hasTime l then Get.uint32LE else pure 0
  let services ← Codec.read l
  let ip := BitVec.ofNat 128 (← Get.natBE 16)
  let portNumber ← Get.uint16BE
  return { time, services, ip, portNumber }

end NetAddress

instance : Codec NetAddress where
  write := NetAddress.write
  read := NetAddress.read

end HeaderPeer
