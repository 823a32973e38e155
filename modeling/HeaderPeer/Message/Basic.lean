/-
  HeaderPeer.Message.Basic — the messages of the protocol and their payloads.

  A message is named by a command.  Commands outside the table of kinds are kept as unknown
  messages with their payload as it came.  Reading a payload computes the hashes of the headers,
  blocks and transactions in it.
-/
import HeaderPeer.Block
import HeaderPeer.Message.Announcement
import HeaderPeer.Message.Inventory

namespace HeaderPeer

open Wire

/-! ## §1. Kinds -/

/-- The kinds of messages that have a meaning here. -/
inductive Kind where
  | version
  | verack
  | ping
  | pong
  | getAddr
  | addr
  | inv
  | getData
  | notFound
  | getHeaders
  | headers
  | block
  | tx
  | sendHeaders
  deriving DecidableEq, Repr

namespace Kind

def all : List Kind :=
  [version, verack, ping, pong, getAddr, addr, inv, getData, notFound, getHeaders, headers, block,
   tx, sendHeaders]

/-- The command that names a kind on the wire. -/
def command : Kind → String
  | version => "version"
  | verack => "verack"
  | ping => "ping"
  | pong => "pong"
  | getAddr => "getaddr"
  | addr => "addr"
  | inv => "inv"
  | getData => "getdata"
  | notFound => "notfound"
  | getHeaders => "getheaders"
  | headers => "headers"
  | block => "block"
  | tx => "tx"
  | sendHeaders => "sendheaders"

/-- The name of a kind for people. -/
def title : Kind → String
  | version => "Version"
  | verack => "Verack"
  | ping => "Ping"
  | pong => "Pong"
  | getAddr => "GetAddr"
  | addr => "Addr"
  | inv => "Inv"
  | getData => "GetData"
  | notFound => "NotFound"
  | getHeaders => "GetHeaders"
  | headers => "Headers"
  | block => "Block"
  | tx => "Tx"
  | sendHeaders => "SendHeaders"

/-- The kind that a command names, if it names one. -/
def ofCommand? (command : String) : Option Kind := all.find? fun kind => kind.command = command

end Kind

/-! ## §2. Messages -/

inductive Message where
  | version (announcement : Announcement)
  | verack
  | ping (nonce : UInt64)
  | pong (nonce : UInt64)
  | getAddr
  | addr (addresses : List NetAddress)
  | inv (items : List InventoryItem)
  | getData (items : List InventoryItem)
  | notFound (items : List InventoryItem)
  | getHeaders (request : HeaderRequest)
  | headers (headers : List Header)
  | block (block : Block)
  | tx (tx : Tx)
  | sendHeaders
  /-- A whole message whose command has no meaning here. -/
  | unknown (command : String) (payload : Bytes)
  deriving DecidableEq, Repr

namespace Message

/-- The kind of a message, unless it is unknown. -/
def kind? : Message → Option Kind
  | version _ => some .version
  | verack => some .verack
  | ping _ => some .ping
  | pong _ => some .pong
  | getAddr => some .getAddr
  | addr _ => some .addr
  | inv _ => some .inv
  | getData _ => some .getData
  | notFound _ => some .notFound
  | getHeaders _ => some .getHeaders
  | headers _ => some .headers
  | block _ => some .block
  | tx _ => some .tx
  | sendHeaders => some .sendHeaders
  | unknown _ _ => none

def command : Message → String
  | unknown command _ => command
  | known => (known.kind?.map Kind.command).getD ""

/-! ## §3. Payloads -/

/-- Whether pings and pongs carry a nonce under a layout. -/
def hasNonce (l : Layout) : Bool := Protocol.pingNonceVersion < l.version

def writeNonce (l : Layout) (nonce : UInt64) : Put :=
  if hasNonce l then .uint64LE nonce else .nothing

def readNonce (l : Layout) : Get UInt64 := if hasNonce l then Get.uint64LE else pure 0

def write (l : Layout) : Message → Put
  | version a => Codec.write l a
  | ping nonce => writeNonce l nonce
  | pong nonce => writeNonce l nonce
  | addr addresses => Codec.write l addresses
  | inv items => Codec.write l items
  | getData items => Codec.write l items
  | notFound items => Codec.write l items
  | getHeaders request => Codec.write l request
  | headers items => Codec.write l items
  | block b => Codec.write l b
  | tx t => Codec.write l t
  | verack => .nothing
  | getAddr => .nothing
  | sendHeaders => .nothing
  | unknown _ payload => .bytes payload

def payload (l : Layout) (m : Message) : Bytes := ((write l m).run .empty).2.toBytes

/-- Reads the payload of a message of a known kind and computes the hashes in it. -/
def read (hasher : Hasher) (l : Layout) : Kind → Get Message
  | .version => do return version (← Codec.read l)
  | .verack => return verack
  | .ping => do return ping (← readNonce l)
  | .pong => do return pong (← readNonce l)
  | .getAddr => return getAddr
  | .addr => do return addr (← Codec.read l)
  | .inv => do return inv (← Codec.read l)
  | .getData => do return getData (← Codec.read l)
  | .notFound => do return notFound (← Codec.read l)
  | .getHeaders => do return getHeaders (← Codec.read l)
  | .headers => do
    let items : List Header ← Codec.read l
    return headers (items.map (Header.rehash hasher))
  | .block => do
    let b : Block ← Codec.read l
    return block (b.rehash hasher)
  | .tx => do
    let t : Tx ← Codec.read l
    return tx (t.rehash hasher)
  | .sendHeaders => return sendHeaders

/-- The message of a known kind with a payload; bytes after the message are passed over. -/
def decode (hasher : Hasher) (l : Layout) (kind : Kind) (payload : Bytes) : Except Error Message :=
  match (read hasher l kind).run payload with
  | .ok m _ => .ok m
  | .error e _ => .error e

end Message

end HeaderPeer
