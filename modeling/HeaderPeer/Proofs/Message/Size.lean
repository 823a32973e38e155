/-
  HeaderPeer.Proofs.Message.Size — what the length of a payload says about the message.

  A list on the wire begins with the number of its items, and a number from 2^64 on loses its upper
  digits there.  Every item takes a byte at least, so a payload whose own length can be counted has
  no list in it that cannot: whoever bounds the payloads need not bound the messages.

  Main statements:
    * `Put.shows_list` — the bytes of a list are at least as many as its items.
    * `Message.sized_of_payload` — the lists of a message can be counted if its payload can.
-/
import HeaderPeer.Proofs.Tx.RoundTrip

namespace HeaderPeer

open Wire

/-! ## §1. Writers and the number of their bytes -/

namespace Wire.Put

/-- The writer adds the same bytes to every buffer, at least `least` of them; and if the bytes can
be counted, then `P` holds. -/
def Shows (p : Put) (least : Nat) (P : Prop) : Prop :=
  ∃ bs, p.Writes bs ∧ least ≤ bs.length ∧ (Countable bs → P)

section

variable {p q : Put} {m n : Nat} {P Q : Prop}

theorem Shows.mono (h : p.Shows m P) (hle : n ≤ m) (himp : P → Q) : p.Shows n Q := by
  obtain ⟨bs, hwrites, hleast, hP⟩ := h
  refine ⟨bs, hwrites, Nat.le_trans hle hleast, ?_⟩
  intro hcount
  exact himp (hP hcount)

theorem shows_nothing : nothing.Shows 0 True :=
  ⟨[], writes_nothing, Nat.le_refl 0, fun _ => trivial⟩

theorem shows_fixed {width : Nat} {bs : Bytes} (h : bs.length = width) :
    (fixed width bs).Shows width True :=
  ⟨bs, writes_fixed h, Nat.le_of_eq h.symm, fun _ => trivial⟩

/-- What two writers show, they show together: each wrote a part of the bytes that are counted. -/
theorem Shows.append (hp : p.Shows m P) (hq : q.Shows n Q) : (p ++ q).Shows (m + n) (P ∧ Q) := by
  obtain ⟨bs, hbs, hm, hP⟩ := hp
  obtain ⟨more, hmore, hn, hQ⟩ := hq
  refine ⟨bs ++ more, hbs.append hmore, ?_, ?_⟩
  · rw [List.length_append]
    omega
  · intro hcount
    have hlen : bs.length + more.length < 2 ^ 64 := by
      rw [← List.length_append]
      exact hcount
    constructor
    · apply hP
      show bs.length < 2 ^ 64
      omega
    · apply hQ
      show more.length < 2 ^ 64
      omega

/-- A part that is only written on a condition shows what it shows on that condition. -/
theorem Shows.optional {c : Prop} [Decidable c] (hp : p.Shows m P) :
    (if c then p else nothing).Shows 0 (c → P) := by
  by_cases hc : c
  · rw [if_pos hc]
    exact hp.mono (Nat.zero_le m) fun hP _ => hP
  · rw [if_neg hc]
    exact shows_nothing.mono (Nat.le_refl 0) fun _ hc' => absurd hc' hc

end

theorem shows_uint8 (v : UInt8) : (uint8 v).Shows 1 True := shows_fixed rfl

theorem shows_uint32LE (v : UInt32) : (uint32LE v).Shows 4 True :=
  shows_fixed (Bytes.length_ofNatLE 4 _)

theorem shows_uint64LE (v : UInt64) : (uint64LE v).Shows 8 True :=
  shows_fixed (Bytes.length_ofNatLE 8 _)

theorem shows_word256 (w : Word256) : (word256 w).Shows 32 True :=
  shows_fixed (Word256.length_toBytes w)

theorem shows_varInt (v : UInt64) : (varInt v).Shows 1 True := by
  have hsize : 1 ≤ VarInt.size v := by
    unfold VarInt.size
    split
    · decide
    · split
      · decide
      · split <;> decide
  have hfixed : (varInt v).Shows (VarInt.size v) True := shows_fixed (VarInt.length_encode v)
  exact hfixed.mono hsize id

section

variable {α : Type} {item : α → Put} {items : List α} {P : α → Prop}

/-- A list with no more items than bytes were written can be counted if they can. -/
theorem Shows.countable {p : Put} {Q : Prop} (h : p.Shows items.length Q) :
    p.Shows items.length (Countable items ∧ Q) := by
  obtain ⟨bs, hwrites, hleast, hQ⟩ := h
  refine ⟨bs, hwrites, hleast, ?_⟩
  intro hcount
  exact ⟨Nat.lt_of_le_of_lt hleast hcount, hQ hcount⟩

/-- Items of a byte or more: there are no more of them than bytes. -/
theorem shows_each (h : ∀ a ∈ items, (item a).Shows 1 (P a)) :
    (each item items).Shows items.length (∀ a ∈ items, P a) := by
  induction items with
  | nil => exact ⟨[], writes_nothing, Nat.le_refl 0, fun _ a ha => nomatch ha⟩
  | cons a items ih =>
    have hfirst := h a List.mem_cons_self
    have hrest := ih fun b hb => h b (List.mem_cons_of_mem a hb)
    rw [each_cons, List.length_cons, Nat.add_comm]
    exact (hfirst.append hrest).mono (Nat.le_refl _) List.forall_mem_cons.2

theorem shows_list (h : ∀ a ∈ items, (item a).Shows 1 (P a)) :
    (list item items).Shows 1 (Countable items ∧ ∀ a ∈ items, P a) := by
  have hcount : (count items.length).Shows 1 True := shows_varInt (UInt64.ofNat items.length)
  exact (hcount.append (shows_each h).countable).mono (Nat.le_add_right 1 _) fun h => h.2

end

theorem shows_byteArray (bs : Bytes) : (byteArray bs).Shows 1 (Countable bs) := by
  have hcount : (count bs.length).Shows 1 True := shows_varInt (UInt64.ofNat bs.length)
  have hbytes : (bytes bs).Shows bs.length True := shows_fixed rfl
  exact (hcount.append hbytes.countable).mono (Nat.le_add_right 1 _) fun h => h.2.1

end Wire.Put

/-! ## §2. Transactions -/

theorem TxInput.shows (l : Layout) (i : TxInput) :
    (Codec.write l i).Shows 1 (Countable i.script) := by
  have houtpoint : (Codec.write l i.previous).Shows 36 (True ∧ True) :=
    (Put.shows_word256 i.previous.hash).append (Put.shows_uint32LE i.previous.index)
  have hscript := Put.shows_byteArray i.script
  have hsequence := Put.shows_uint32LE i.sequence
  exact ((houtpoint.append hscript).append hsequence).mono (by decide) fun h => h.1.2

theorem TxOutput.shows (l : Layout) (o : TxOutput) :
    (Codec.write l o).Shows 1 (Countable o.script) := by
  have hvalue : (Put.int64LE o.value).Shows 8 True := Put.shows_uint64LE _
  have hscript := Put.shows_byteArray o.script
  exact (hvalue.append hscript).mono (by decide) fun h => h.2

theorem Witness.shows (l : Layout) (w : Witness) :
    (Codec.write l w).Shows 1 (Countable w.items ∧ ∀ item ∈ w.items, Countable item) :=
  Put.shows_list fun item _ => Put.shows_byteArray item

/-- Inputs without witnesses have nothing there that would have to be counted. -/
theorem Tx.witness_of_no_witness {t : Tx} (h : ¬ t.hasWitness = true) {i : TxInput}
    (hi : i ∈ t.inputs) : Countable i.witness.items ∧ ∀ item ∈ i.witness.items, Countable item := by
  rw [← bareInputs_of_no_witness h] at hi
  obtain ⟨j, -, rfl⟩ := List.mem_map.1 hi
  exact ⟨countable_nil, fun item hitem => nomatch hitem⟩

/-- Where witnesses are written, a transaction whose bytes can be counted has lists that can be. -/
theorem Tx.shows {l : Layout} (hl : l.witness = true) (t : Tx) :
    (Tx.write l t).Shows 1 t.Sized := by
  have hversion : (Put.int32LE t.version).Shows 4 True := Put.shows_uint32LE _
  have hlock := Put.shows_uint32LE t.lockTime
  have hinputs : (Codec.write l t.inputs).Shows 1
      (Countable t.inputs ∧ ∀ i ∈ t.inputs, Countable i.script) :=
    Put.shows_list fun i _ => TxInput.shows l i
  have houtputs : (Codec.write l t.outputs).Shows 1
      (Countable t.outputs ∧ ∀ o ∈ t.outputs, Countable o.script) :=
    Put.shows_list fun o _ => TxOutput.shows l o
  unfold Tx.write
  rw [hl, Bool.true_and]
  by_cases hwitness : t.hasWitness = true
  · have hmarker := (hversion.append (Put.shows_uint8 0)).append (Put.shows_uint8 witnessFlag)
    have hwitnesses : (writeWitnesses l t.inputs).Shows t.inputs.length
        (∀ i ∈ t.inputs, Countable i.witness.items ∧ ∀ item ∈ i.witness.items, Countable item) :=
      Put.shows_each fun i _ => Witness.shows l i.witness
    rw [if_pos hwitness]
    refine ((((hmarker.append hinputs).append houtputs).append hwitnesses).append hlock).mono
      (by omega) ?_
    rintro ⟨⟨⟨⟨-, hin, hscript⟩, hout, hscript'⟩, hitems⟩, -⟩
    exact ⟨hin, hout, fun i hi => ⟨hscript i hi, (hitems i hi).1, (hitems i hi).2⟩, hscript'⟩
  · rw [if_neg hwitness]
    refine (((hversion.append hinputs).append houtputs).append hlock).mono (by decide) ?_
    rintro ⟨⟨⟨-, hin, hscript⟩, hout, hscript'⟩, -⟩
    refine ⟨hin, hout, ?_, hscript'⟩
    intro i hi
    have hnone := witness_of_no_witness hwitness hi
    exact ⟨hscript i hi, hnone.1, hnone.2⟩

/-! ## §3. Parts of messages -/

theorem NetAddress.shows (l : Layout) (a : NetAddress) : (Codec.write l a).Shows 1 True := by
  have htime := (Put.shows_uint32LE a.time).optional (c := hasTime l = true)
  have hservices : (Codec.write l a.services).Shows 8 True := Put.shows_uint64LE _
  have hip : (Put.fixed 16 (Bytes.ofNatBE 16 a.ip.toNat)).Shows 16 True :=
    Put.shows_fixed (Bytes.length_ofNatBE 16 _)
  have hport : (Put.uint16BE a.portNumber).Shows 2 True :=
    Put.shows_fixed (Bytes.length_ofNatBE 2 _)
  exact (((htime.append hservices).append hip).append hport).mono (by decide) fun _ => trivial

theorem InventoryItem.shows (l : Layout) (i : InventoryItem) : (Codec.write l i).Shows 1 True := by
  have hcode := Put.shows_uint32LE i.kind.code
  exact (hcode.append (Put.shows_word256 i.hash)).mono (by decide) fun _ => trivial

theorem Header.shows (l : Layout) (h : Header) : (Codec.write l h).Shows 1 True := by
  have hversion : (Put.int32LE h.version).Shows 4 True := Put.shows_uint32LE _
  have hhashes := (hversion.append (Put.shows_word256 h.previous)).append
    (Put.shows_word256 h.merkleRoot)
  have hwords := ((hhashes.append (Put.shows_uint32LE h.time)).append
    (Put.shows_uint32LE h.bits)).append (Put.shows_uint32LE h.nonce)
  have hcount : (if l.bareHeader then Put.nothing else .varInt h.txCount).Shows 0 True := by
    split
    · exact Put.shows_nothing
    · exact (Put.shows_varInt h.txCount).mono (Nat.zero_le 1) id
  exact (hwords.append hcount).mono (by decide) fun _ => trivial

/-- The name of a sender's program is written by the versions that have one. -/
theorem Announcement.shows (l : Layout) (a : Announcement) :
    (Codec.write l a).Shows 1
      (Protocol.senderVersion ≤ a.version → Countable (Bytes.ofText a.userAgent)) := by
  have hversion : (Put.int32LE a.version).Shows 4 True := Put.shows_uint32LE _
  have hservices : (Codec.write l a.services).Shows 8 True := Put.shows_uint64LE _
  have htimestamp : (Put.int64LE a.timestamp).Shows 8 True := Put.shows_uint64LE _
  have hreceiver := NetAddress.shows l.withoutAddressTime a.receiver
  have hsender := NetAddress.shows l.withoutAddressTime a.sender
  have hagent := Put.shows_byteArray (Bytes.ofText a.userAgent)
  have hheight : (Put.int32LE a.startHeight).Shows 4 True := Put.shows_uint32LE _
  have hrelay : (Put.bool a.relay).Shows 1 True := Put.shows_uint8 _
  -- what came with later versions is written on two conditions, the one inside the other
  have hlater := ((((hsender.append (Put.shows_uint64LE a.nonce)).append hagent).append
    hheight).append (hrelay.optional (c := Protocol.relayVersion ≤ a.version))).optional
      (c := Protocol.senderVersion ≤ a.version)
  exact ((((hversion.append hservices).append htimestamp).append hreceiver).append hlater).mono
    (by decide) fun h hnew => (h.2 hnew).1.1.2

theorem HeaderRequest.shows (l : Layout) (r : HeaderRequest) :
    (Codec.write l r).Shows 1 (Countable r.locator.hashes) := by
  have hversion : (Put.int32LE r.version).Shows 4 True := Put.shows_uint32LE _
  have hhashes : (Codec.write l r.locator).Shows 1
      (Countable r.locator.hashes ∧ ∀ hash ∈ r.locator.hashes, True) :=
    Put.shows_list fun hash _ => (Put.shows_word256 hash).mono (by decide) id
  have hstop := Put.shows_word256 r.stop
  exact ((hversion.append hhashes).append hstop).mono (by decide) fun h => h.1.2.1

theorem Block.shows {l : Layout} (hl : l.witness = true) (b : Block) :
    (Codec.write l b).Shows 1 (Countable b.txs ∧ ∀ t ∈ b.txs, t.Sized) := by
  have htxs : (Codec.write l b.txs).Shows 1 (Countable b.txs ∧ ∀ t ∈ b.txs, t.Sized) :=
    Put.shows_list fun t _ => Tx.shows hl t
  exact ((Header.shows l.insideBlock b.header).append htxs).mono (by decide) fun h => h.2

/-! ## §4. Messages -/

namespace Message

variable {hasher : Hasher} {version : Int32}

theorem payload_of_writes {l : Layout} {m : Message} {bs : Bytes} (h : (m.write l).Writes bs) :
    m.payload l = bs := h.run_empty

/-- A list of things that take a byte or more each. -/
theorem countable_of_shows {α : Type} [Codec α] (l : Layout)
    (h : ∀ a : α, (Codec.write l a).Shows 1 True) (items : List α) :
    (Codec.write l items).Shows 0 (Countable items) :=
  (Put.shows_list fun a _ => h a).mono (Nat.zero_le 1) fun h => h.1

theorem shows_nonce (nonce : UInt64) : (writeNonce { version } nonce).Shows 0 True := by
  unfold writeNonce
  exact (Put.shows_uint64LE nonce).optional.mono (Nat.le_refl 0) fun _ => trivial

theorem shows {m : Message} (h : m.Representable hasher version) :
    (m.write { version }).Shows 0 m.Sized := by
  cases m with
  | version a =>
    refine (Announcement.shows _ a).mono (Nat.zero_le 1) ?_
    intro hagent
    by_cases hnew : Protocol.senderVersion ≤ a.version
    · exact hagent hnew
    · -- an older announcement has no name of a program to be counted
      show Countable (Bytes.ofText a.userAgent)
      rw [(Announcement.Representable.old h (Int32.not_le.1 hnew)).2.2.1]
      exact countable_nil
  | verack => exact Put.shows_nothing
  | ping nonce => exact shows_nonce nonce
  | pong nonce => exact shows_nonce nonce
  | getAddr => exact Put.shows_nothing
  | addr addresses => exact countable_of_shows _ (NetAddress.shows _) addresses
  | inv items => exact countable_of_shows _ (InventoryItem.shows _) items
  | getData items => exact countable_of_shows _ (InventoryItem.shows _) items
  | notFound items => exact countable_of_shows _ (InventoryItem.shows _) items
  | getHeaders r => exact (HeaderRequest.shows _ r).mono (Nat.zero_le 1) id
  | headers hs => exact countable_of_shows _ (Header.shows _) hs
  | block b => exact (Block.shows rfl b).mono (Nat.zero_le 1) id
  | tx t => exact (Tx.shows rfl t).mono (Nat.zero_le 1) id
  | sendHeaders => exact Put.shows_nothing
  | unknown command payload =>
    have hbytes : (Put.bytes payload).Shows payload.length True := Put.shows_fixed rfl
    exact hbytes.mono (Nat.zero_le _) id

/-- **The lists of a message can be counted if its payload can.** -/
theorem sized_of_payload {m : Message} (h : m.Representable hasher version)
    (hcount : Countable (m.payload { version })) : m.Sized := by
  obtain ⟨bs, hwrites, -, hsized⟩ := shows h
  apply hsized
  rw [payload_of_writes hwrites] at hcount
  exact hcount

end Message

end HeaderPeer
