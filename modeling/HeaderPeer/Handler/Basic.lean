/-
  HeaderPeer.Handler.Basic — answering messages.

  A handler names the kinds of messages that it takes and answers each with messages for the same
  peer.  It may change what is known about the peer and may bring headers to the worker.
-/
import HeaderPeer.Admission.Worker
import HeaderPeer.Message.Basic
import HeaderPeer.Rule.Block

namespace HeaderPeer

/-! ## §1. Errors -/

/-- What a peer may not do. -/
inductive Offence where
  /-- The peer turns out to be this node. -/
  | selfConnection
  | obsoleteVersion (version : Int32)
  /-- The peer announces itself a second time. -/
  | repeatedAnnouncement
  | manyHeaders (count : Nat)
  | invalidBlock (hash : Word256) (fault : BlockFault)
  | invalidTx (txid : Word256) (fault : TxFault)
  deriving DecidableEq, Repr

def Offence.message : Offence → String
  | .selfConnection => "connected to self"
  | .obsoleteVersion version => "obsolete protocol version " ++ toString version.toInt
  | .repeatedAnnouncement => "duplicate version message"
  | .manyHeaders count => toString count ++ " headers in one message"
  | .invalidBlock hash fault => "invalid block " ++ hash.text ++ ": " ++ fault.rejection.text
  | .invalidTx txid fault => "invalid transaction " ++ txid.text ++ ": " ++ fault.rejection.text

/-- Why a message was not answered; the connection does not survive it. -/
inductive HandlerError where
  | misbehaved (offence : Offence)
  /-- Headers could not be brought to the worker. -/
  | closed (cause : Worker.Closed)
  deriving DecidableEq, Repr

def HandlerError.message : HandlerError → String
  | .misbehaved offence => "Peer misbehaved: " ++ offence.message
  | .closed cause => "Validator error: " ++ cause.message

/-! ## §2. Handlers -/

/-- What a handler works on. -/
structure Exchange where
  peer : Peer
  worker : Worker

/-- An action on an exchange; what was changed before an error stays changed. -/
abbrev Act (α : Type) := EStateM HandlerError Exchange α

namespace Act

/-- Gives up because of an offence of the peer. -/
def offend {α : Type} (offence : Offence) : Act α := throw (.misbehaved offence)

/-- Changes what is known about the peer. -/
def modifyPeer (change : Peer → Peer) : Act Unit :=
  modify fun x => { x with peer := change x.peer }

end Act

/-- Answers some kinds of messages. -/
structure Handler where
  name : String
  interests : List Kind
  /-- The answers to a message at the given time of the clock. -/
  handle : (now : Int64) → Message → Act (List Message)

end HeaderPeer
