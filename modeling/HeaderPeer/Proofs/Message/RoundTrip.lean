/-
  HeaderPeer.Proofs.Message.RoundTrip — messages come back from the wire.

  What is written of a message is read as that message if what the wire leaves out is what a reader
  supplies; and whatever is read is such a message.  So reading is a projection: a message that was
  read once is not changed by writing and reading it again.

  Main statement: `decode_payload`.
-/
import HeaderPeer.Proofs.Message.Announcement

namespace HeaderPeer

open Wire

variable {l : Layout}

/-! ## §1. References and requests -/

/-- A reference as it comes out at the other end: with the named kind if its number has a name. -/
def InventoryItem.onWire (i : InventoryItem) : InventoryItem :=
  { i with kind := .ofCode i.kind.code }

theorem InventoryItem.carries_onWire (l : Layout) (i : InventoryItem) :
    Carries (Codec.write l i) (Codec.read l) i.onWire :=
  (carries_uint32LE i.kind.code).bind ((carries_word256 i.hash).finish rfl)

theorem InventoryItem.carries (l : Layout) {i : InventoryItem} (h : i.kind.Representable) :
    Carries (Codec.write l i) (Codec.read l) i := by
  have hcarries := carries_onWire l i
  rw [onWire, InventoryKind.ofCode_code h] at hcarries
  exact hcarries

theorem InventoryItem.yields (l : Layout) :
    Yields (Codec.read l : Get InventoryItem) fun i => i.kind.Representable :=
  yields_bind fun code => yields_bind fun _ => yields_pure (InventoryKind.representable_ofCode code)

theorem Locator.carries (l : Layout) {x : Locator} (h : Countable x.hashes) :
    Carries (Codec.write l x) (Codec.read l) x := by
  have hhashes : Carries (Codec.write l x.hashes) (Codec.read l) x.hashes :=
    carries_list_same h fun hash _ => carries_word256 hash
  exact hhashes.finish rfl

theorem HeaderRequest.carries (l : Layout) {r : HeaderRequest} (h : Countable r.locator.hashes) :
    Carries (Codec.write l r) (Codec.read l) r := by
  show Carries (.int32LE r.version ++ Codec.write l r.locator ++ .word256 r.stop) _ _
  rw [Put.append_assoc]
  refine (carries_int32LE r.version).bind ?_
  refine (Locator.carries l h).bind ?_
  exact (carries_word256 r.stop).finish rfl

theorem HeaderRequest.yields (l : Layout) :
    Yields (Codec.read l : Get HeaderRequest) fun r => Countable r.locator.hashes := by
  have hany : Yields Get.word256 fun _ => True := fun _ _ _ _ => trivial
  have hlocator : Yields (Codec.read l : Get Locator) fun x => Countable x.hashes :=
    (yields_list hany).map fun _ h => h.1
  exact yields_bind fun _ => hlocator.bind fun _ h => yields_bind fun _ => yields_pure h

/-! ## §2. Messages -/

namespace Message

variable {hasher : Hasher} {version : Int32}

/-- A nonce comes back, or is what a reader supplies. -/
theorem carries_nonce {nonce : UInt64} (h : version ≤ Protocol.pingNonceVersion → nonce = 0) :
    Carries (writeNonce { version } nonce) (readNonce { version }) nonce := by
  unfold writeNonce readNonce
  by_cases hnonce : hasNonce { version } = true
  · rw [if_pos hnonce, if_pos hnonce]
    exact carries_uint64LE nonce
  · have hold : version ≤ Protocol.pingNonceVersion := by
      refine Int32.not_lt.1 fun hnew => hnonce ?_
      exact decide_eq_true hnew
    rw [if_neg hnonce, if_neg hnonce, h hold]
    exact carries_pure 0

theorem yields_nonce (version : Int32) :
    Yields (readNonce { version }) fun nonce =>
      version ≤ Protocol.pingNonceVersion → nonce = 0 := by
  refine yields_ite (fun hnew => ?_) fun _ => yields_pure fun _ => rfl
  intro data nonce rest _ hold
  exact absurd (of_decide_eq_true hnew) (Int32.not_lt.2 hold)

theorem hasTime_eq_false_iff :
    NetAddress.hasTime { version } = false ↔ version < Protocol.addressTimeVersion := by
  show (true && decide (Protocol.addressTimeVersion ≤ version)) = false ↔ _
  rw [Bool.true_and, decide_eq_false_iff_not, Int32.not_le]

/-- What is taken from each item and computed again is back. -/
theorem map_restored {α β : Type} {f : α → β} {g : β → α} {items : List α}
    (h : ∀ a ∈ items, g (f a) = a) : (items.map f).map g = items := by
  rw [List.map_map]
  exact (List.map_congr_left h).trans (List.map_id' items)

theorem carries_addresses {addresses : List NetAddress} (hsized : Countable addresses)
    (h : ∀ a ∈ addresses, version < Protocol.addressTimeVersion → a.time = 0) :
    Carries (Codec.write { version } addresses) (Codec.read { version }) addresses :=
  carries_list_same hsized fun a ha =>
    NetAddress.carries _ fun hnone => h a ha (hasTime_eq_false_iff.1 hnone)

theorem carries_items {items : List InventoryItem} (hsized : Countable items)
    (h : ∀ i ∈ items, i.kind.Representable) :
    Carries (Codec.write { version } items) (Codec.read { version }) items :=
  carries_list_same hsized fun i hi => InventoryItem.carries _ (h i hi)

/-- Headers come back with their hashes. -/
theorem carries_headers {hs : List Header} (hsized : Countable hs)
    (h : ∀ x ∈ hs, x.Hashed hasher) :
    Carries (Codec.write { version } hs) (read hasher { version } .headers) (.headers hs) := by
  have hlist : Carries (Codec.write { version } hs) (Codec.read { version })
      (hs.map fun x => { x with hash := 0 }) :=
    carries_list hsized fun x _ => Header.carries _ x
  refine hlist.finish ?_
  rw [map_restored fun x hx => Header.rehash_of_hashed (h x hx)]

/-- A block comes back with all its hashes. -/
theorem carries_block {b : Block} (hsized : Countable b.txs ∧ ∀ t ∈ b.txs, t.Sized)
    (h : b.Representable hasher) :
    Carries (Codec.write { version } b) (read hasher { version } .block) (.block b) := by
  have hfits : b.Fits { version } :=
    ⟨hsized.1, fun t ht => ⟨hsized.2 t ht, fun _ => (h.txs t ht).shape⟩⟩
  have hblock : Carries (Codec.write { version } b) (Codec.read { version }) _ :=
    Block.carries hfits
  refine hblock.finish ?_
  -- the hashes are computed from what was read, and they were computed ones before
  have hheader : (b.onWire { version }).header.rehash hasher = b.header := by
    show Header.rehash hasher { b.header with txCount := 0, hash := 0 } = b.header
    rw [← h.txCount]
    exact Header.rehash_of_hashed h.hashed
  have htxs : (b.onWire { version }).txs.map (Tx.rehash hasher) = b.txs :=
    map_restored fun t ht => Tx.rehash_of_representable (h.txs t ht)
  rw [Block.rehash, hheader, htxs]

/-- **A message of a known kind that the wire can tell apart comes back.** -/
theorem carries {m : Message} {kind : Kind} (hkind : m.kind? = some kind)
    (h : m.Representable hasher version) (hsized : m.Sized) :
    Carries (m.write { version }) (read hasher { version } kind) m := by
  cases m with
  | version a =>
    cases hkind
    exact (Announcement.carries _ h hsized).finish rfl
  | verack =>
    cases hkind
    exact carries_pure _
  | ping nonce =>
    cases hkind
    exact (carries_nonce h).finish rfl
  | pong nonce =>
    cases hkind
    exact (carries_nonce h).finish rfl
  | getAddr =>
    cases hkind
    exact carries_pure _
  | addr addresses =>
    cases hkind
    exact (carries_addresses hsized h).finish rfl
  | inv items =>
    cases hkind
    exact (carries_items hsized h).finish rfl
  | getData items =>
    cases hkind
    exact (carries_items hsized h).finish rfl
  | notFound items =>
    cases hkind
    exact (carries_items hsized h).finish rfl
  | getHeaders r =>
    cases hkind
    exact (HeaderRequest.carries _ hsized).finish rfl
  | headers hs =>
    cases hkind
    exact carries_headers hsized h
  | block b =>
    cases hkind
    exact carries_block hsized h
  | tx t =>
    cases hkind
    refine (Tx.carries rfl hsized h.shape).finish ?_
    rw [Tx.rehash_of_representable h]
  | sendHeaders =>
    cases hkind
    exact carries_pure _
  | unknown command payload => cases hkind

/-- **Whatever is read is a message of its kind that the wire can tell apart.** -/
theorem yields (hasher : Hasher) (version : Int32) (kind : Kind) :
    Yields (read hasher { version } kind) fun m =>
      m.kind? = some kind ∧ m.Representable hasher version ∧ m.Sized := by
  have hitems : Yields (Codec.read { version } : Get (List InventoryItem)) fun items =>
      Countable items ∧ ∀ i ∈ items, i.kind.Representable :=
    yields_list (InventoryItem.yields _)
  cases kind with
  | version => exact (Announcement.yields _).map fun a h => ⟨rfl, h⟩
  | verack => exact yields_pure ⟨rfl, trivial, trivial⟩
  | ping => exact (yields_nonce version).map fun nonce h => ⟨rfl, h, trivial⟩
  | pong => exact (yields_nonce version).map fun nonce h => ⟨rfl, h, trivial⟩
  | getAddr => exact yields_pure ⟨rfl, trivial, trivial⟩
  | addr =>
    have hlist : Yields (Codec.read { version } : Get (List NetAddress)) _ :=
      yields_list (NetAddress.yields _)
    refine hlist.map fun addresses h => ⟨rfl, ?_, h.1⟩
    exact fun a ha hold => h.2 a ha (hasTime_eq_false_iff.2 hold)
  | inv => exact hitems.map fun items h => ⟨rfl, h.2, h.1⟩
  | getData => exact hitems.map fun items h => ⟨rfl, h.2, h.1⟩
  | notFound => exact hitems.map fun items h => ⟨rfl, h.2, h.1⟩
  | getHeaders => exact (HeaderRequest.yields _).map fun r h => ⟨rfl, trivial, h⟩
  | headers =>
    have hany : Yields (Header.read { version }) fun _ => True := fun _ _ _ _ => trivial
    have hlist : Yields (Codec.read { version } : Get (List Header)) _ := yields_list hany
    -- whatever headers are read, their hashes are computed afterwards
    refine hlist.map fun hs h => ⟨rfl, ?_, ?_⟩
    · intro x hx
      obtain ⟨y, -, rfl⟩ := List.mem_map.1 hx
      exact Header.hashed_rehash hasher y
    · show (hs.map _).length < 2 ^ 64
      rw [List.length_map]
      exact h.1
  | block =>
    refine (Block.yields rfl).map fun b h => ⟨rfl, ⟨rfl, h.1, ?_⟩, ?_, ?_⟩
    · intro t ht
      obtain ⟨u, hu, rfl⟩ := List.mem_map.1 ht
      exact Tx.representable_rehash (h.2.2 u hu).2
    · show (b.txs.map _).length < 2 ^ 64
      rw [List.length_map]
      exact h.2.1
    · intro t ht
      obtain ⟨u, hu, rfl⟩ := List.mem_map.1 ht
      exact Tx.sized_rehash hasher (h.2.2 u hu).1
  | tx =>
    exact (Tx.yields rfl).map fun t h =>
      ⟨rfl, Tx.representable_rehash h.2, Tx.sized_rehash hasher h.1⟩
  | sendHeaders => exact yields_pure ⟨rfl, trivial, trivial⟩

/-! ## §3. Payloads -/

theorem decode_of_run {l : Layout} {kind : Kind} {bs rest : Bytes} {m : Message}
    (h : (read hasher l kind).run bs = .ok m rest) : decode hasher l kind bs = .ok m := by
  rw [decode, h]

/-- **Payloads round-trip, and reading normalises.**  A message of a known kind that the wire can
tell apart is read from its payload, whatever follows it; all that is ever read are such messages;
and so a message that was read is read again from its own payload. -/
theorem decode_payload (hasher : Hasher) (version : Int32) :
    (∀ m kind tail, m.kind? = some kind → m.Representable hasher version → m.Sized →
        decode hasher { version } kind (m.payload { version } ++ tail) = .ok m)
      ∧ (∀ kind bs m, decode hasher { version } kind bs = .ok m →
        m.kind? = some kind ∧ m.Representable hasher version ∧ m.Sized)
      ∧ ∀ kind bs m tail, decode hasher { version } kind bs = .ok m →
        decode hasher { version } kind (m.payload { version } ++ tail) = .ok m := by
  have hback : ∀ m kind tail, m.kind? = some kind → m.Representable hasher version → m.Sized →
      decode hasher { version } kind (m.payload { version } ++ tail) = .ok m := by
    intro m kind tail hkind h hsized
    obtain ⟨bs, hput, hget⟩ := carries hkind h hsized
    have hpayload : m.payload { version } = bs := by
      rw [payload, hput, Output.toBytes_append, Output.toBytes_empty, List.nil_append]
    rw [hpayload]
    exact decode_of_run (hget tail)
  have hread : ∀ kind bs m, decode hasher { version } kind bs = .ok m →
      m.kind? = some kind ∧ m.Representable hasher version ∧ m.Sized := by
    intro kind bs m hdecode
    unfold decode at hdecode
    split at hdecode
    · next m' rest hrun =>
      cases hdecode
      exact yields hasher version kind bs m rest hrun
    · cases hdecode
  refine ⟨hback, hread, ?_⟩
  intro kind bs m tail hdecode
  obtain ⟨hkind, h, hsized⟩ := hread kind bs m hdecode
  exact hback m kind tail hkind h hsized

/-- An announcement of the newest version, as a node that listens nowhere would make it. -/
def greeting : Announcement :=
  { version := Protocol.currentVersion, services := .network, timestamp := 1700000000
    receiver := .unspecified, sender := .unspecified, nonce := 42, userAgent := "/header-peer/"
    startHeight := 7, relay := false }

/-- An announcement comes back, also when more bytes follow it. -/
theorem greeting_decode_payload :
    decode .doubleSha256 { version := 209 } .version
        ((Message.version greeting).payload { version := 209 } ++ [1, 2, 3])
      = .ok (Message.version greeting) := by
  refine (decode_payload .doubleSha256 209).1 (.version greeting) .version [1, 2, 3] rfl ?_ ?_
  · show greeting.Representable
    exact ⟨rfl, rfl, fun hold => absurd hold (by decide), fun hold => absurd hold (by decide)⟩
  · show (Bytes.ofText greeting.userAgent).length < 2 ^ 64
    decide

end Message

end HeaderPeer
