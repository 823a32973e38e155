/-
  HeaderPeer.Proofs.Message.WireType — all types with a form on the wire, as one type of names.

  What holds of every wire type is stated once, over the names, and shown name by name; a list of
  values of a wire type is of a wire type again.  Every value that can be counted comes back as it
  looks from the other end (`carries`), and all readers but those of announcements decide by the
  bytes that they take (`selfDelimiting`).

  Main statements: `carries`, `selfDelimiting`.
-/
import HeaderPeer.Proofs.Message.RoundTrip
import HeaderPeer.Proofs.Wire.SelfDelimiting

namespace HeaderPeer

open Wire

/-! ## §1. Names of types -/

/-- The types whose values are written to and read from the wire. -/
inductive WireType where
  | word256
  | outpoint
  | txInput
  | txOutput
  | witness
  | tx
  | header
  | block
  | locator
  | services
  | address
  | reference
  | announcement
  | headerRequest
  | list (item : WireType)
  deriving DecidableEq, Repr

namespace WireType

/-- The values of a wire type. -/
def Value : WireType → Type
  | word256 => Word256
  | outpoint => Outpoint
  | txInput => TxInput
  | txOutput => TxOutput
  | witness => Witness
  | tx => Tx
  | header => Header
  | block => Block
  | locator => Locator
  | services => Services
  | address => NetAddress
  | reference => InventoryItem
  | announcement => Announcement
  | headerRequest => HeaderRequest
  | list item => List item.Value

/-- Each type with its own writer and reader. -/
instance codec : (t : WireType) → Codec t.Value
  | word256 => inferInstanceAs (Codec Word256)
  | outpoint => inferInstanceAs (Codec Outpoint)
  | txInput => inferInstanceAs (Codec TxInput)
  | txOutput => inferInstanceAs (Codec TxOutput)
  | witness => inferInstanceAs (Codec Witness)
  | tx => inferInstanceAs (Codec Tx)
  | header => inferInstanceAs (Codec Header)
  | block => inferInstanceAs (Codec Block)
  | locator => inferInstanceAs (Codec Locator)
  | services => inferInstanceAs (Codec Services)
  | address => inferInstanceAs (Codec NetAddress)
  | reference => inferInstanceAs (Codec InventoryItem)
  | announcement => inferInstanceAs (Codec Announcement)
  | headerRequest => inferInstanceAs (Codec HeaderRequest)
  | list item =>
    have := codec item
    inferInstanceAs (Codec (List item.Value))

/-- Whether values of the type are, or hold, announcements. -/
def hasAnnouncement : WireType → Bool
  | announcement => true
  | list item => item.hasAnnouncement
  | _ => false

/-- The value can be written so that it is found again: its lists and strings can be counted, and
where witnesses are known a transaction has an input or no output. -/
def Fits (l : Layout) : (t : WireType) → t.Value → Prop
  | txInput, (i : TxInput) => Countable i.script
  | txOutput, (o : TxOutput) => Countable o.script
  | witness, (w : Witness) => Countable w.items ∧ ∀ item ∈ w.items, Countable item
  | tx, (t : Tx) => t.Fits l
  | block, (b : Block) => b.Fits l
  | locator, (x : Locator) => Countable x.hashes
  | announcement, (a : Announcement) => Countable (Bytes.ofText a.userAgent)
  | headerRequest, (r : HeaderRequest) => Countable r.locator.hashes
  | list item, (values : List item.Value) => Countable values ∧ ∀ v ∈ values, item.Fits l v
  | word256, _ => True
  | outpoint, _ => True
  | header, _ => True
  | services, _ => True
  | address, _ => True
  | reference, _ => True

/-- The value as it comes out at the other end. -/
def onWire (l : Layout) : (t : WireType) → t.Value → t.Value
  | txInput, (i : TxInput) => ({ i with witness := .none } : TxInput)
  | tx, (t : Tx) => t.onWire l
  | header, (h : Header) => h.onWire l
  | block, (b : Block) => b.onWire l
  | address, (a : NetAddress) => a.onWire l
  | reference, (i : InventoryItem) => i.onWire
  | announcement, (a : Announcement) => a.arrived
  | list item, (values : List item.Value) => values.map (item.onWire l)
  | word256, w => w
  | outpoint, o => o
  | txOutput, o => o
  | witness, w => w
  | locator, x => x
  | services, s => s
  | headerRequest, r => r

/-! ## §2. What comes back -/

/-- **Every value that fits comes back as it looks from the other end.** -/
theorem carries (l : Layout) : (t : WireType) → (v : t.Value) → t.Fits l v →
    Carries (Codec.write l v) (Codec.read l) (t.onWire l v)
  | word256, w, _ => carries_word256 w
  | outpoint, o, _ => Outpoint.carries l o
  | txInput, _, h => TxInput.carries l h
  | txOutput, _, h => TxOutput.carries l h
  | witness, _, h => Witness.carries l h.1 h.2
  | tx, _, h => Tx.carries_onWire h
  | header, h, _ => Header.carries l h
  | block, _, h => Block.carries h
  | locator, _, h => Locator.carries l h
  | services, s, _ => Services.carries l s
  | address, a, _ => NetAddress.carries_onWire l a
  | reference, i, _ => InventoryItem.carries_onWire l i
  | announcement, _, h => Announcement.carries_arrived l h
  | headerRequest, _, h => HeaderRequest.carries l h
  | list item, _, h => carries_list h.1 fun v hv => carries l item v (h.2 v hv)

end WireType

/-! ## §3. Readers that know where their value ends -/

theorem Outpoint.selfDelimiting (l : Layout) : SelfDelimiting (Codec.read l : Get Outpoint) :=
  selfDelimiting_word256.bind fun _ => selfDelimiting_uint32LE.map _

theorem TxInput.selfDelimiting (l : Layout) : SelfDelimiting (Codec.read l : Get TxInput) :=
  (Outpoint.selfDelimiting l).bind fun _ => selfDelimiting_byteArray.bind fun _ =>
    selfDelimiting_uint32LE.map _

theorem TxOutput.selfDelimiting (l : Layout) : SelfDelimiting (Codec.read l : Get TxOutput) :=
  selfDelimiting_int64LE.bind fun _ => selfDelimiting_byteArray.map _

theorem Witness.selfDelimiting (l : Layout) : SelfDelimiting (Codec.read l : Get Witness) :=
  (selfDelimiting_list selfDelimiting_byteArray).map _

namespace Tx

/-- The lists are read twice where the first one is empty, but each time from what is left. -/
theorem selfDelimiting_lists (l : Layout) : SelfDelimiting (readLists l) := by
  have hinputs : SelfDelimiting (Codec.read l : Get (List TxInput)) :=
    selfDelimiting_list (TxInput.selfDelimiting l)
  have houtputs : SelfDelimiting (Codec.read l : Get (List TxOutput)) :=
    selfDelimiting_list (TxOutput.selfDelimiting l)
  refine hinputs.bind fun inputs => selfDelimiting_ite ?_ (houtputs.map _)
  refine selfDelimiting_uint8.bind fun flags => selfDelimiting_ite (selfDelimiting_pure _) ?_
  exact hinputs.bind fun _ => houtputs.map _

theorem selfDelimiting_announced (l : Layout) (flags : UInt8) (inputs : List TxInput) :
    SelfDelimiting (readAnnounced l flags inputs) := by
  have hwitnesses : SelfDelimiting (readWitnesses l inputs) :=
    selfDelimiting_mapM (fun i => (Witness.selfDelimiting l).map _) inputs
  refine selfDelimiting_ite (hwitnesses.bind fun inputs' => ?_) ?_
  · refine selfDelimiting_check id ?_
    exact selfDelimiting_check id (selfDelimiting_pure inputs')
  · exact selfDelimiting_check id (selfDelimiting_pure inputs)

theorem selfDelimiting (l : Layout) : SelfDelimiting (Tx.read l) :=
  selfDelimiting_int32LE.bind fun _ => (selfDelimiting_lists l).bind fun _ =>
    (selfDelimiting_announced l _ _).bind fun _ => selfDelimiting_uint32LE.map _

end Tx

theorem Header.selfDelimiting (l : Layout) : SelfDelimiting (Header.read l) :=
  selfDelimiting_int32LE.bind fun _ => selfDelimiting_word256.bind fun _ =>
    selfDelimiting_word256.bind fun _ => selfDelimiting_uint32LE.bind fun _ =>
    selfDelimiting_uint32LE.bind fun _ => selfDelimiting_uint32LE.bind fun _ =>
    selfDelimiting_ite ((selfDelimiting_pure 0).map _) (selfDelimiting_varInt.map _)

theorem Block.selfDelimiting (l : Layout) : SelfDelimiting (Codec.read l : Get Block) :=
  (Header.selfDelimiting l.insideBlock).bind fun _ =>
    (selfDelimiting_list (Tx.selfDelimiting l)).map _

theorem Locator.selfDelimiting (l : Layout) : SelfDelimiting (Codec.read l : Get Locator) :=
  (selfDelimiting_list selfDelimiting_word256).map _

theorem Services.selfDelimiting (l : Layout) : SelfDelimiting (Codec.read l : Get Services) :=
  selfDelimiting_uint64LE.map _

theorem NetAddress.selfDelimiting (l : Layout) : SelfDelimiting (NetAddress.read l) := by
  have hrest : ∀ time, SelfDelimiting (do
      let services ← Codec.read l
      let ip := BitVec.ofNat 128 (← Get.natBE 16)
      let portNumber ← Get.uint16BE
      return ({ time, services, ip, portNumber } : NetAddress)) := fun time =>
    (Services.selfDelimiting l).bind fun _ => (selfDelimiting_natBE 16).bind fun _ =>
      selfDelimiting_uint16BE.map _
  exact selfDelimiting_ite (selfDelimiting_uint32LE.bind hrest) ((selfDelimiting_pure 0).bind hrest)

theorem InventoryItem.selfDelimiting (l : Layout) :
    SelfDelimiting (Codec.read l : Get InventoryItem) :=
  selfDelimiting_uint32LE.bind fun _ => selfDelimiting_word256.map _

theorem HeaderRequest.selfDelimiting (l : Layout) :
    SelfDelimiting (Codec.read l : Get HeaderRequest) :=
  selfDelimiting_int32LE.bind fun _ => (Locator.selfDelimiting l).bind fun _ =>
    selfDelimiting_word256.map _

/-- **All wire types without announcements have readers that know where their value ends.** -/
theorem WireType.selfDelimiting (l : Layout) : (t : WireType) → t.hasAnnouncement = false →
    SelfDelimiting (Codec.read l : Get t.Value)
  | word256, _ => selfDelimiting_word256
  | outpoint, _ => Outpoint.selfDelimiting l
  | txInput, _ => TxInput.selfDelimiting l
  | txOutput, _ => TxOutput.selfDelimiting l
  | witness, _ => Witness.selfDelimiting l
  | tx, _ => Tx.selfDelimiting l
  | header, _ => Header.selfDelimiting l
  | block, _ => Block.selfDelimiting l
  | locator, _ => Locator.selfDelimiting l
  | services, _ => Services.selfDelimiting l
  | address, _ => NetAddress.selfDelimiting l
  | reference, _ => InventoryItem.selfDelimiting l
  | announcement, h => nomatch h
  | headerRequest, _ => HeaderRequest.selfDelimiting l
  | list item, h => selfDelimiting_list (WireType.selfDelimiting l item h)

end HeaderPeer
