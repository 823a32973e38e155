/-
  HeaderPeer.Proofs.Message.Load — what a value brings is paid for with the bytes it is read from.

  The load of a value is the number of items in all lists that were read for it, those of lists
  within lists included, and the number of bytes of all its scripts, texts and witness strings.
  Every wire type is read from more bytes than that, so no count that a peer sends makes a reader
  keep, or ask for, more than the peer has paid for.

  Main statements:
    * `WireType.consumes` — every wire type is read from a byte more than its load.
    * `WireType.counts_bounded` — that, and what becomes of counts that are too large.
-/
import HeaderPeer.Proofs.Message.WireType
import HeaderPeer.Proofs.Tx.Marker
import HeaderPeer.Proofs.Wire.Consumes

namespace HeaderPeer

open Wire

/-! ## §1. Loads -/

def Witness.load (w : Witness) : Nat := loads List.length w.items

def TxInput.load (i : TxInput) : Nat := i.script.length + i.witness.load

def TxOutput.load (o : TxOutput) : Nat := o.script.length

def Tx.load (t : Tx) : Nat := loads TxInput.load t.inputs + loads TxOutput.load t.outputs

def Block.load (b : Block) : Nat := loads Tx.load b.txs

def Locator.load (x : Locator) : Nat := x.hashes.length

def Announcement.load (a : Announcement) : Nat := (Bytes.ofText a.userAgent).length

/-- The items of all lists of a value, and the bytes of all its strings. -/
def WireType.load : (t : WireType) → t.Value → Nat
  | txInput, (i : TxInput) => i.load
  | txOutput, (o : TxOutput) => o.load
  | witness, (w : Witness) => w.load
  | tx, (t : Tx) => t.load
  | block, (b : Block) => b.load
  | locator, (x : Locator) => x.load
  | announcement, (a : Announcement) => a.load
  | headerRequest, (r : HeaderRequest) => r.locator.load
  | list item, (values : List item.Value) => loads item.load values
  | word256, _ => 0
  | outpoint, _ => 0
  | header, _ => 0
  | services, _ => 0
  | address, _ => 0
  | reference, _ => 0

/-! ## §2. Transactions -/

theorem Outpoint.consumes (l : Layout) : Consumes (Codec.read l : Get Outpoint) fun _ n => n = 36 :=
  consumes_word256.bind fun _ n hn => consumes_uint32LE.map fun _ m hm => by omega

/-- An input is read without its witness, which follows later. -/
theorem TxInput.consumes (l : Layout) :
    Consumes (Codec.read l : Get TxInput) fun i n => i.load + 1 ≤ n := by
  refine (Outpoint.consumes l).bind fun previous a ha => ?_
  refine consumes_byteArray.bind fun script b hb => ?_
  refine consumes_uint32LE.map fun sequence c hc => ?_
  show script.length + Witness.none.load + 1 ≤ a + (b + c)
  have hnone : Witness.none.load = 0 := rfl
  omega

theorem TxOutput.consumes (l : Layout) :
    Consumes (Codec.read l : Get TxOutput) fun o n => o.load + 1 ≤ n := by
  refine consumes_int64LE.bind fun value a ha => consumes_byteArray.map fun script b hb => ?_
  show script.length + 1 ≤ a + b
  omega

theorem Witness.consumes (l : Layout) :
    Consumes (Codec.read l : Get Witness) fun w n => w.load + 1 ≤ n :=
  (consumes_list List.length consumes_byteArray).map fun _ _ h => h

namespace Tx

theorem consumes_inputs (l : Layout) :
    Consumes (Codec.read l : Get (List TxInput)) fun is n => loads TxInput.load is + 1 ≤ n :=
  consumes_list TxInput.load (TxInput.consumes l)

theorem consumes_outputs (l : Layout) :
    Consumes (Codec.read l : Get (List TxOutput)) fun os n => loads TxOutput.load os + 1 ≤ n :=
  consumes_list TxOutput.load (TxOutput.consumes l)

/-- Where the lists are read a second time, what the first ones took is on top. -/
theorem consumes_lists (l : Layout) :
    Consumes (readLists l) fun p n =>
      loads TxInput.load p.2.1 + loads TxOutput.load p.2.2 + 1 ≤ n := by
  refine (consumes_inputs l).bind fun first a ha => consumes_ite (fun _ => ?_) fun _ => ?_
  · refine consumes_uint8.bind fun flags b hb => consumes_ite (fun _ => ?_) fun _ => ?_
    · -- without flags there are no lists, and the marker and the flag are all that was taken
      refine consumes_pure ?_
      rw [loads_nil, loads_nil]
      omega
    · refine (consumes_inputs l).bind fun inputs c hc => ?_
      refine (consumes_outputs l).map fun outputs d hd => ?_
      show loads TxInput.load inputs + loads TxOutput.load outputs + 1 ≤ a + (b + (c + d))
      omega
  · refine (consumes_outputs l).map fun outputs b hb => ?_
    show loads TxInput.load first + loads TxOutput.load outputs + 1 ≤ a + b
    omega

/-- The witnesses are paid for where they stand. -/
theorem consumes_witnesses (l : Layout) (inputs : List TxInput) :
    Consumes (readWitnesses l inputs) fun is n =>
      loads TxInput.load is ≤ loads TxInput.load inputs + n := by
  refine consumes_mapM (fun i => (Witness.consumes l).map fun w n hw => ?_) inputs
  show i.script.length + w.load ≤ i.script.length + i.witness.load + n
  omega

theorem consumes_announced (l : Layout) (flags : UInt8) (inputs : List TxInput) :
    Consumes (readAnnounced l flags inputs) fun is n =>
      loads TxInput.load is ≤ loads TxInput.load inputs + n := by
  refine consumes_ite (fun _ => (consumes_witnesses l inputs).bind fun is n hn => ?_) fun _ => ?_
  · -- neither check takes a byte
    exact consumes_check (consumes_check (consumes_pure hn))
  · exact consumes_check (consumes_pure (Nat.le_refl _))

/-- **All that a transaction brings is paid for**, its witnesses included. -/
theorem consumes (l : Layout) : Consumes (Tx.read l) fun t n => t.load + 1 ≤ n := by
  refine consumes_int32LE.bind fun version a ha => (consumes_lists l).bind fun p b hb => ?_
  obtain ⟨flags, inputs, outputs⟩ := p
  refine (consumes_announced l flags inputs).bind fun is c hc => ?_
  refine consumes_uint32LE.map fun lockTime d hd => ?_
  show loads TxInput.load is + loads TxOutput.load outputs + 1 ≤ a + (b + (c + d))
  simp only at hb
  omega

end Tx

/-! ## §3. The other types -/

/-- The eighty bytes of a header, and its count of transactions where it has one. -/
theorem Header.consumes (l : Layout) : Consumes (Header.read l) fun _ n => 80 ≤ n := by
  refine consumes_int32LE.bind fun version a ha => consumes_word256.bind fun previous b hb => ?_
  refine consumes_word256.bind fun merkleRoot c hc => consumes_uint32LE.bind fun time d hd => ?_
  refine consumes_uint32LE.bind fun bits e he => consumes_uint32LE.bind fun nonce g hg => ?_
  have hnone : Consumes (pure 0 : Get UInt64) fun _ n => n = 0 := consumes_pure rfl
  exact consumes_ite (fun _ => hnone.map fun _ n _ => by omega)
    fun _ => consumes_varInt.map fun _ n _ => by omega

theorem Block.consumes (l : Layout) :
    Consumes (Codec.read l : Get Block) fun b n => b.load + 1 ≤ n := by
  refine (Header.consumes l.insideBlock).bind fun header a ha => ?_
  refine (consumes_list Tx.load (Tx.consumes l)).map fun txs b hb => ?_
  show loads Tx.load txs + 1 ≤ a + b
  omega

theorem Locator.consumes (l : Layout) :
    Consumes (Codec.read l : Get Locator) fun x n => x.load + 1 ≤ n := by
  have hhashes : Consumes (Codec.read l : Get (List Word256)) fun hs n =>
      loads (fun _ => 0) hs + 1 ≤ n :=
    consumes_list (fun _ => 0) (consumes_word256.mono fun _ n hn => by omega)
  refine hhashes.map fun hashes n hn => ?_
  show hashes.length + 1 ≤ n
  rw [loads] at hn
  omega

theorem Services.consumes (l : Layout) :
    Consumes (Codec.read l : Get Services) fun _ n => n = 8 :=
  consumes_uint64LE.map fun _ _ h => h

theorem NetAddress.consumes (l : Layout) : Consumes (NetAddress.read l) fun _ n => 26 ≤ n := by
  have hrest : ∀ time, Consumes (do
      let services ← Codec.read l
      let ip := BitVec.ofNat 128 (← Get.natBE 16)
      let portNumber ← Get.uint16BE
      return ({ time, services, ip, portNumber } : NetAddress)) fun _ n => 26 ≤ n := fun time =>
    (Services.consumes l).bind fun _ a ha => (consumes_natBE 16).bind fun _ b hb =>
      consumes_uint16BE.map fun _ c hc => by omega
  have hnone : Consumes (pure 0 : Get UInt32) fun _ n => n = 0 := consumes_pure rfl
  exact consumes_ite
    (fun _ => consumes_uint32LE.bind fun time a _ => (hrest time).mono fun _ n hn => by omega)
    fun _ => hnone.bind fun time a _ => (hrest time).mono fun _ n hn => by omega

theorem InventoryItem.consumes (l : Layout) :
    Consumes (Codec.read l : Get InventoryItem) fun _ n => n = 36 :=
  consumes_uint32LE.bind fun _ a ha => consumes_word256.map fun _ b hb => by omega

namespace Announcement

/-- Whether a wish for transactions stands there or not, reading it takes nothing else. -/
theorem consumes_readRelay (version : Int32) : Consumes (readRelay version) fun _ n => n ≤ 1 := by
  refine consumes_ite (fun _ => consumes_atEnd.bind fun atEnd a ha => ?_) fun _ => ?_
  · refine consumes_ite (fun _ => consumes_pure (by omega)) fun _ => ?_
    exact consumes_bool.mono fun _ n hn => by omega
  · exact consumes_pure (Nat.zero_le 1)

theorem consumes_readRest (l : Layout) (version : Int32) (services : Services) (timestamp : Int64)
    (receiver : NetAddress) :
    Consumes (readRest l version services timestamp receiver) fun a n => a.load ≤ n := by
  refine consumes_ite (fun _ => ?_) fun _ => ?_
  · refine (NetAddress.consumes l.withoutAddressTime).bind fun sender a _ => ?_
    refine consumes_uint64LE.bind fun nonce b _ => consumes_text.bind fun userAgent c hc => ?_
    refine consumes_int32LE.bind fun startHeight d _ => ?_
    refine (consumes_readRelay version).map fun relay e _ => ?_
    show (Bytes.ofText userAgent).length ≤ a + (b + (c + (d + e)))
    omega
  · refine consumes_pure ?_
    show (Bytes.ofText "").length ≤ 0
    decide

theorem consumes (l : Layout) : Consumes (Announcement.read l) fun a n => a.load + 1 ≤ n := by
  refine consumes_int32LE.bind fun version a ha => (Services.consumes l).bind fun services b _ => ?_
  refine consumes_int64LE.bind fun timestamp c _ => ?_
  refine (NetAddress.consumes l.withoutAddressTime).bind fun receiver d _ => ?_
  exact (consumes_readRest l version services timestamp receiver).mono fun _ n hn => by omega

end Announcement

theorem HeaderRequest.consumes (l : Layout) :
    Consumes (Codec.read l : Get HeaderRequest) fun r n => r.locator.load + 1 ≤ n := by
  refine consumes_int32LE.bind fun version a _ => (Locator.consumes l).bind fun locator b hb => ?_
  refine consumes_word256.map fun stop c _ => ?_
  show locator.load + 1 ≤ a + (b + c)
  omega

/-! ## §4. All types -/

namespace WireType

/-- **Every wire type is read from a byte more than its load**, one case for each name. -/
theorem consumes (l : Layout) : (t : WireType) →
    Consumes (Codec.read l : Get t.Value) fun v n => t.load v + 1 ≤ n
  | word256 => consumes_word256.mono fun _ n hn => show 0 + 1 ≤ n by omega
  | outpoint => (Outpoint.consumes l).mono fun _ n hn => show 0 + 1 ≤ n by omega
  | txInput => TxInput.consumes l
  | txOutput => TxOutput.consumes l
  | witness => Witness.consumes l
  | tx => Tx.consumes l
  | header => (Header.consumes l).mono fun _ n hn => show 0 + 1 ≤ n by omega
  | block => Block.consumes l
  | locator => Locator.consumes l
  | services => (Services.consumes l).mono fun _ n hn => show 0 + 1 ≤ n by omega
  | address => (NetAddress.consumes l).mono fun _ n hn => show 0 + 1 ≤ n by omega
  | reference => (InventoryItem.consumes l).mono fun _ n hn => show 0 + 1 ≤ n by omega
  | announcement => Announcement.consumes l
  | headerRequest => HeaderRequest.consumes l
  | list item => consumes_list item.load (consumes l item)

/-- **What a peer may send is bounded by the bytes that it sends.**  Whatever is read was there, and
all lists that were read for it, with all that is within them, have no more items and no more bytes
in their strings than the bytes that were taken.  A list or a witness that is announced with more
items than there are bytes behind the count is refused, and before that no more items are asked for
than there are bytes, and one. -/
theorem counts_bounded (l : Layout) (t : WireType) :
    (∀ data v rest, (Codec.read l : Get t.Value).run data = .ok v rest →
        ∃ taken, data = taken ++ rest ∧ t.load v ≤ taken.length)
      ∧ ∀ data n behind, Get.count.run data = .ok n behind → behind.length < n →
        RunsDry (Codec.read l : Get t.Value) (Codec.read l : Get (List t.Value)) data behind
          ∧ RunsDry Get.byteArray (Codec.read l : Get Witness) data behind := by
  refine ⟨?_, ?_⟩
  · intro data v rest hrun
    obtain ⟨taken, hdata, hload⟩ := consumes l t data v rest hrun
    exact ⟨taken, hdata, Nat.le_of_succ_le hload⟩
  · intro data n behind hcount hshort
    have hitem : Consumes (Codec.read l : Get t.Value) fun _ n => 1 ≤ n :=
      (consumes l t).mono fun _ _ h => Nat.le_trans (Nat.le_add_left _ _) h
    have hstring : Consumes Get.byteArray fun _ n => 1 ≤ n :=
      consumes_byteArray.mono fun _ _ h => Nat.le_trans (Nat.le_add_left _ _) h
    refine ⟨runsDry_list hitem hcount hshort, ?_⟩
    obtain ⟨items, mid, e, rest, hreads, hrefused, hrun, hfew⟩ :=
      runsDry_list hstring hcount hshort
    exact ⟨items, mid, e, rest, hreads, hrefused, run_bind_error hrun, hfew⟩

/-- A count of 2^64 - 1 with three bytes behind it. -/
def overcounted : Bytes := List.replicate 9 0xff ++ [1, 2, 3]

/-- The transaction brings nine things: an input with two strings of three bytes in all, and an
output with a script of two bytes.  And the count is refused, whatever it is said to count. -/
theorem overcounted_runsDry :
    (∃ taken, encode .full Tx.spend ++ [7] = taken ++ [7] ∧ 9 ≤ taken.length)
      ∧ Get.count.run overcounted = .ok (2 ^ 64 - 1) [1, 2, 3]
      ∧ RunsDry (Codec.read .full : Get Tx) (Codec.read .full : Get (List Tx)) overcounted [1, 2, 3]
      ∧ RunsDry Get.byteArray (Codec.read .full : Get Witness) overcounted [1, 2, 3] := by
  have hspend : (Tx.read .full).run (encode .full Tx.spend ++ [7])
      = .ok { Tx.spend with txid := 0, wtxid := 0 } [7] :=
    (Tx.carries rfl Tx.sized_spend (.inl (List.cons_ne_nil _ _))).run_encode [7]
  have hcount : Get.count.run overcounted = .ok (2 ^ 64 - 1) [1, 2, 3] := rfl
  obtain ⟨hload, hcounts⟩ := counts_bounded .full .tx
  exact ⟨hload _ _ _ hspend, hcount, hcounts _ _ _ hcount (by decide)⟩

end WireType

end HeaderPeer
