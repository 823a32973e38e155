/-
  HeaderPeer.Proofs.Message.Appends — writing only appends.

  The type of a writer would let it rewrite the buffer, look at what is there, or report any number.
  No writer of a wire type or a message does: what is there stays, the encoding of the value is put
  behind it, and the number reported is that of the bytes added.  Whatever was shown of a writer
  before, that its bytes come back, how many they are or what they show, was shown of such a writer,
  so only lists, transactions and messages are left.

  Main statements: `WireType.appends`, `Message.appends`, `writing_only_appends`.
-/
import HeaderPeer.Proofs.Block.Size
import HeaderPeer.Proofs.Message.Size
import HeaderPeer.Proofs.Message.WireType

namespace HeaderPeer

open Wire

/-! ## §1. Writers that only append -/

namespace Wire

namespace Put

/-- The writer adds the same bytes to every buffer and reports how many they are. -/
def Appends (p : Put) : Prop := ∃ bs, p.Writes bs

section

variable {α : Type} {p q : Put} {n : Nat} {P : Prop} {item : α → Put}

theorem Adds.appends (h : p.Adds n) : p.Appends := by
  obtain ⟨bs, hwrites, -⟩ := h
  exact ⟨bs, hwrites⟩

theorem Shows.appends (h : p.Shows n P) : p.Appends := by
  obtain ⟨bs, hwrites, -⟩ := h
  exact ⟨bs, hwrites⟩

theorem Appends.adds (h : p.Appends) : p.Adds (p.run .empty).1 := by
  obtain ⟨bs, hwrites⟩ := h
  refine ⟨bs, hwrites, ?_⟩
  rw [hwrites]

theorem Appends.append (hp : p.Appends) (hq : q.Appends) : (p ++ q).Appends :=
  (hp.adds.append hq.adds).appends

/-- **A list of such writers**, behind the number of them. -/
theorem appends_list (h : ∀ a, (item a).Appends) (items : List α) : (list item items).Appends :=
  (adds_list (fun a => (h a).adds) items).appends

/-- **What is there stays, and behind it comes what would come into an empty buffer.** -/
theorem Appends.toBytes_run (h : p.Appends) (out : Output) :
    (p.run out).2.toBytes = out.toBytes ++ (p.run .empty).2.toBytes := by
  obtain ⟨bs, hwrites⟩ := h
  rw [hwrites.run_empty, hwrites, Output.toBytes_append]

/-- **The number reported is that of the bytes added.** -/
theorem Appends.reports (h : p.Appends) (out : Output) :
    (p.run out).1 = (p.run .empty).2.toBytes.length := by
  obtain ⟨bs, hwrites⟩ := h
  rw [hwrites.run_empty, hwrites]

end

end Put

theorem Carries.appends {α : Type} {p : Put} {g : Get α} {a : α} (h : Carries p g a) :
    p.Appends := by
  obtain ⟨bs, hwrites, -⟩ := h
  exact ⟨bs, hwrites⟩

end Wire

/-! ## §2. Wire types -/

/-- With its witnesses or without them. -/
theorem Tx.appends (l : Layout) (t : Tx) : (Codec.write l t).Appends := by
  cases hl : l.witness with
  | true => exact (Tx.shows hl t).appends
  | false => exact (Tx.adds_bare hl t).appends

theorem Block.appends (l : Layout) (b : Block) : (Codec.write l b).Appends :=
  (Header.carries l.insideBlock b.header).appends.append (Put.appends_list (Tx.appends l) b.txs)

theorem Locator.appends (l : Layout) (x : Locator) : (Codec.write l x).Appends :=
  Put.appends_list (fun hash => (Put.adds_word256 hash).appends) x.hashes

/-- **The writers of all wire types only append**, those of values too long to be counted as well. -/
theorem WireType.appends (l : Layout) : (t : WireType) → (v : t.Value) → (Codec.write l v).Appends
  | word256, w => (Put.adds_word256 w).appends
  | outpoint, o => (Outpoint.carries l o).appends
  | txInput, i => (TxInput.adds l i).appends
  | txOutput, o => (TxOutput.adds l o).appends
  | witness, w => (Witness.shows l w).appends
  | tx, t => Tx.appends l t
  | header, h => (Header.carries l h).appends
  | block, b => Block.appends l b
  | locator, x => Locator.appends l x
  | services, s => (Services.carries l s).appends
  | address, a => (NetAddress.carries_onWire l a).appends
  | reference, i => (InventoryItem.carries_onWire l i).appends
  | announcement, a => (Announcement.shows l a).appends
  | headerRequest, r => (HeaderRequest.shows l r).appends
  | list item, values => Put.appends_list (appends l item) values

/-! ## §3. Messages -/

namespace Message

theorem appends_nonce (l : Layout) (nonce : UInt64) : (writeNonce l nonce).Appends :=
  (Put.shows_uint64LE nonce).optional.appends

/-- **The payload of a message is only appended**, also that of a message of no known kind. -/
theorem appends (l : Layout) (m : Message) : (m.write l).Appends := by
  have hnothing : Put.nothing.Appends := Put.adds_nothing.appends
  cases m with
  | version a => exact WireType.appends l .announcement a
  | verack => exact hnothing
  | ping nonce => exact appends_nonce l nonce
  | pong nonce => exact appends_nonce l nonce
  | getAddr => exact hnothing
  | addr addresses => exact WireType.appends l (.list .address) addresses
  | inv items => exact WireType.appends l (.list .reference) items
  | getData items => exact WireType.appends l (.list .reference) items
  | notFound items => exact WireType.appends l (.list .reference) items
  | getHeaders r => exact WireType.appends l .headerRequest r
  | headers hs => exact WireType.appends l (.list .header) hs
  | block b => exact WireType.appends l .block b
  | tx t => exact WireType.appends l .tx t
  | sendHeaders => exact hnothing
  | unknown command payload =>
    have hbytes : (Put.bytes payload).Adds payload.length := Put.adds_fixed rfl
    exact hbytes.appends

end Message

/-! ## §4. All writers -/

/-- **Writing only appends, and what it reports is what it appended.**  Whatever a buffer holds,
writing a value of a wire type, or the payload of a message, leaves it there, puts the encoding of
the value behind it, and reports how many bytes that is.  So the size of a value, which is what its
writer reports, is the length of its encoding. -/
theorem writing_only_appends (l : Layout) (out : Output) :
    (∀ (t : WireType) (v : t.Value),
        ((Codec.write l v).run out).2.toBytes = out.toBytes ++ encode l v
          ∧ ((Codec.write l v).run out).1 = (encode l v).length
          ∧ size l v = (encode l v).length)
      ∧ ∀ m : Message,
        ((m.write l).run out).2.toBytes = out.toBytes ++ m.payload l
          ∧ ((m.write l).run out).1 = (m.payload l).length := by
  constructor
  · intro t v
    have happends := WireType.appends l t v
    exact ⟨happends.toBytes_run out, happends.reports out, happends.reports .empty⟩
  · intro m
    have happends := Message.appends l m
    exact ⟨happends.toBytes_run out, happends.reports out⟩

end HeaderPeer
