/-
  HeaderPeer.Proofs.Message.Representable — which messages the wire can tell apart.

  Not all of a message is on the wire, and what is not has to be what a reader puts in its place:
  defaults for fields that a version leaves out, computed hashes, and the named kind of a reference
  whose number has a name.  `Representable` says that for each kind of message.  `Sized` says that
  all lists and strings are short enough to be counted, which lists in memory always are.
-/
import HeaderPeer.Message.Basic
import Mathlib.Algebra.Group.Nat.Defs

namespace HeaderPeer

open Wire

/-! ## §1. What is left out -/

/-- What an announcement leaves out has its default: the times of the addresses, and the fields that
came with later versions. -/
structure Announcement.Representable (a : Announcement) : Prop where
  receiver : a.receiver.time = 0
  sender : a.sender.time = 0
  old : a.version < Protocol.senderVersion →
    a.sender = .unspecified ∧ a.nonce = 0 ∧ a.userAgent = "" ∧ a.startHeight = 0
  relay : a.version < Protocol.relayVersion → a.relay = true

/-- A kind with a name is not given by its number. -/
def InventoryKind.Representable (kind : InventoryKind) : Prop :=
  ∀ code, kind = .unknown code → ∀ other ∈ named, other.code ≠ code

/-- The hash is that of the header. -/
def Header.Hashed (hasher : Hasher) (h : Header) : Prop := h.hash = h.computeHash hasher

/-- The ids are those of the transaction, and it has an input or no output: one with outputs alone
would be read as the beginning of a transaction with witness data. -/
structure Tx.Representable (hasher : Hasher) (t : Tx) : Prop where
  txid : t.txid = (t.rehash hasher).txid
  wtxid : t.wtxid = (t.rehash hasher).wtxid
  shape : t.inputs ≠ [] ∨ t.outputs = []

structure Block.Representable (hasher : Hasher) (b : Block) : Prop where
  hashed : b.header.Hashed hasher
  txCount : b.header.txCount = 0
  txs : ∀ t ∈ b.txs, t.Representable hasher

/-- What the wire leaves out of a message under a protocol version is what a reader supplies. -/
def Message.Representable (hasher : Hasher) (version : Int32) : Message → Prop
  | .version a => a.Representable
  | .ping nonce => version ≤ Protocol.pingNonceVersion → nonce = 0
  | .pong nonce => version ≤ Protocol.pingNonceVersion → nonce = 0
  | .addr addresses => ∀ a ∈ addresses, version < Protocol.addressTimeVersion → a.time = 0
  | .inv items => ∀ i ∈ items, i.kind.Representable
  | .getData items => ∀ i ∈ items, i.kind.Representable
  | .notFound items => ∀ i ∈ items, i.kind.Representable
  | .headers hs => ∀ h ∈ hs, h.Hashed hasher
  | .block b => b.Representable hasher
  | .tx t => t.Representable hasher
  | .verack => True
  | .getAddr => True
  | .getHeaders _ => True
  | .sendHeaders => True
  | .unknown _ _ => True

/-! ## §2. What can be counted -/

/-- A list that a count can say the length of. -/
def Countable {α : Type} (items : List α) : Prop := items.length < 2 ^ 64

theorem countable_nil {α : Type} : Countable ([] : List α) := by
  show 0 < 2 ^ 64
  decide

structure TxInput.Sized (i : TxInput) : Prop where
  script : Countable i.script
  witness : Countable i.witness.items
  items : ∀ item ∈ i.witness.items, Countable item

structure Tx.Sized (t : Tx) : Prop where
  inputs : Countable t.inputs
  outputs : Countable t.outputs
  input : ∀ i ∈ t.inputs, i.Sized
  output : ∀ o ∈ t.outputs, Countable o.script

/-- All lists and strings of a message can be counted. -/
def Message.Sized : Message → Prop
  | .version a => Countable (Bytes.ofText a.userAgent)
  | .addr addresses => Countable addresses
  | .inv items => Countable items
  | .getData items => Countable items
  | .notFound items => Countable items
  | .getHeaders r => Countable r.locator.hashes
  | .headers hs => Countable hs
  | .block b => Countable b.txs ∧ ∀ t ∈ b.txs, t.Sized
  | .tx t => t.Sized
  | .verack => True
  | .ping _ => True
  | .pong _ => True
  | .getAddr => True
  | .sendHeaders => True
  | .unknown _ _ => True

/-! ## §3. Kinds of references -/

/-- A kind is read as it was unless its number has a name and the kind does not use it. -/
theorem InventoryKind.ofCode_code {kind : InventoryKind} (h : kind.Representable) :
    ofCode kind.code = kind := by
  cases kind with
  | unknown code =>
    have hnone : (named.find? fun other => other.code = code) = none := by
      rw [List.find?_eq_none]
      intro other hother hsame
      exact h code rfl other hother (of_decide_eq_true hsame)
    show (named.find? fun other => other.code = code).getD (unknown code) = _
    rw [hnone]
    rfl
  | _ => rfl

theorem InventoryKind.representable_ofCode (code : UInt32) : (ofCode code).Representable := by
  intro code' hunknown other hother hsame
  unfold ofCode at hunknown
  cases hfind : named.find? fun kind => kind.code = code with
  | none =>
    rw [hfind] at hunknown
    cases hunknown
    exact List.find?_eq_none.1 hfind other hother (decide_eq_true hsame)
  | some kind =>
    -- what is found is named, and no name stands for an unknown kind
    rw [hfind] at hunknown
    have hmem := List.mem_of_find?_eq_some hfind
    change kind = unknown code' at hunknown
    rw [hunknown] at hmem
    simp [named] at hmem

/-! ## §4. Computed hashes -/

namespace Header

/-- A header without what is computed, or with what stands elsewhere, has the same hash. -/
theorem rehash_of_hashed {hasher : Hasher} {h : Header} (hh : h.Hashed hasher) :
    rehash hasher { h with hash := 0 } = h := by
  show ({ h with hash := h.computeHash hasher } : Header) = h
  rw [← hh]

theorem hashed_rehash (hasher : Hasher) (h : Header) : (h.rehash hasher).Hashed hasher := rfl

end Header

namespace Tx

variable {hasher : Hasher} {t : Tx}

/-- A transaction without its ids has the same ids. -/
theorem rehash_of_representable (h : t.Representable hasher) :
    rehash hasher { t with txid := 0, wtxid := 0 } = t := by
  show ({ t with
    txid := (t.rehash hasher).txid
    wtxid := (t.rehash hasher).wtxid } : Tx) = t
  rw [← h.txid, ← h.wtxid]

theorem representable_rehash (hshape : t.inputs ≠ [] ∨ t.outputs = []) :
    (t.rehash hasher).Representable hasher :=
  ⟨rfl, rfl, hshape⟩

theorem sized_rehash (hasher : Hasher) (h : t.Sized) : (t.rehash hasher).Sized :=
  ⟨h.inputs, h.outputs, h.input, h.output⟩

end Tx

end HeaderPeer
