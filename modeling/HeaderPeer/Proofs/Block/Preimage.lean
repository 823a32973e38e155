/-
  HeaderPeer.Proofs.Block.Preimage — what a hash stands for.

  A hash stands for the bytes that the digest was given, its preimage.  Two things with one preimage
  have one hash whatever the digest is, so a preimage must leave nothing open that the hash is taken
  to settle, and nothing that it is not taken to settle may enter.  Preimages are encodings, and what
  is encoded alike comes back alike; so the content of a preimage is what a reader makes of it.

  An id that covers witnesses is the digest of either of two forms.  A reader that knows witnesses
  tells them apart by the marker, as long as there is an input.  Lists are such as can be counted,
  which lists in memory always can: one of 2^64 items would be written with the count of an empty one.

  Main statements:
    * `Header.preimage_eq_iff`, `Tx.txidPreimage_eq_iff`, `Tx.wtxidPreimage_eq_iff` — what a preimage
      settles.
    * `Tx.extended_ne_legacy` — no form with witnesses is also one without.
    * `preimages_settle_content` — all of this, for every digest.
-/
import HeaderPeer.Proofs.Block.Size
import HeaderPeer.Proofs.Tx.Bare
import HeaderPeer.Proofs.Tx.Marker

namespace HeaderPeer

open Wire

/-! ## §1. Headers -/

namespace Header

/-- The bytes of which a header's hash is the digest. -/
def preimage (h : Header) : Bytes := encode Layout.full.insideBlock h

theorem length_preimage (h : Header) : h.preimage.length = 80 :=
  (size_of_adds (adds_insideBlock .full h)).2

/-- The two headers agree in all that is hashed: in all but the count of transactions and the hash
that is kept. -/
structure SameContent (h h' : Header) : Prop where
  version : h.version = h'.version
  previous : h.previous = h'.previous
  merkleRoot : h.merkleRoot = h'.merkleRoot
  time : h.time = h'.time
  bits : h.bits = h'.bits
  nonce : h.nonce = h'.nonce

/-- **A preimage settles all of a header but what is not hashed.** -/
theorem preimage_eq_iff {h h' : Header} : h.preimage = h'.preimage ↔ h.SameContent h' := by
  constructor
  · intro heq
    have hsame := (carries _ h).eq_of_encode_eq (carries _ h') heq
    obtain ⟨hversion, hprevious, hroot, htime, hbits, hnonce, -, -⟩ := Header.mk.inj hsame
    exact ⟨hversion, hprevious, hroot, htime, hbits, hnonce⟩
  · intro hsame
    have hwrite : Codec.write Layout.full.insideBlock h = Codec.write Layout.full.insideBlock h' := by
      show Header.write _ h = Header.write _ h'
      unfold Header.write
      rw [hsame.version, hsame.previous, hsame.merkleRoot, hsame.time, hsame.bits, hsame.nonce]
      rfl
    rw [preimage, preimage, encode, encode, hwrite]

end Header

/-! ## §2. Transactions without their witnesses -/

namespace Tx

variable {tx tx' : Tx}

/-- The bytes of which a transaction's id is the digest. -/
def txidPreimage (tx : Tx) : Bytes := encode .stripped tx

/-- The two transactions agree in all but witnesses and ids. -/
structure SameBareContent (tx tx' : Tx) : Prop where
  version : tx.version = tx'.version
  lockTime : tx.lockTime = tx'.lockTime
  outputs : tx.outputs = tx'.outputs
  inputs : List.Forall₂ TxInput.SameButWitness tx.inputs tx'.inputs

/-- **The preimage of the id settles all of a transaction but its witnesses.** -/
theorem txidPreimage_eq_iff (h : tx.Sized) (h' : tx'.Sized) :
    tx.txidPreimage = tx'.txidPreimage ↔ tx.SameBareContent tx' := by
  constructor
  · intro heq
    have hsame := (carries_bare rfl h).eq_of_encode_eq (carries_bare rfl h') heq
    obtain ⟨hversion, hinputs, houtputs, hlockTime, -, -⟩ := Tx.mk.inj hsame
    exact ⟨hversion, hlockTime, houtputs, bareInputs_eq_iff.1 hinputs⟩
  · intro hsame
    -- the ids do not enter, so they may be taken to agree as well
    have hbare : tx.SameButWitness { tx' with txid := tx.txid } :=
      ⟨hsame.version, hsame.inputs, hsame.outputs, hsame.lockTime, rfl⟩
    rw [txidPreimage, ← encode_bare, bare_eq_iff.2 hbare, encode_bare]
    rfl

/-! ## §3. Transactions with their witnesses -/

/-- The bytes of which the id that covers witnesses is the digest: those of the other id where there
is no witness, and the form with witnesses where there is one. -/
def wtxidPreimage (tx : Tx) : Bytes :=
  if tx.hasWitness then encode .full tx else tx.txidPreimage

/-- Without witnesses there is one form, also for a writer that knows them. -/
theorem encode_full_of_no_witness (h : tx.hasWitness = false) :
    encode .full tx = tx.txidPreimage := by
  have hwrite : Codec.write .full tx = Codec.write .stripped tx := by
    show Tx.write .full tx = Tx.write .stripped tx
    unfold Tx.write
    rw [h, Bool.and_false, Bool.and_false]
    rfl
  rw [txidPreimage, encode, encode, hwrite]

theorem wtxidPreimage_eq_encode (tx : Tx) : tx.wtxidPreimage = encode .full tx := by
  unfold wtxidPreimage
  split
  · rfl
  · next h => exact (encode_full_of_no_witness (Bool.eq_false_iff.2 h)).symm

/-- The two transactions agree in all but ids. -/
structure SameContent (tx tx' : Tx) : Prop where
  version : tx.version = tx'.version
  lockTime : tx.lockTime = tx'.lockTime
  outputs : tx.outputs = tx'.outputs
  inputs : tx.inputs = tx'.inputs

/-- Transactions with inputs are told apart by their full forms. -/
theorem encode_full_eq_iff (h : tx.Sized) (h' : tx'.Sized) (hinputs : tx.inputs ≠ [])
    (hinputs' : tx'.inputs ≠ []) : encode .full tx = encode .full tx' ↔ tx.SameContent tx' := by
  constructor
  · intro heq
    have hsame := (carries rfl h (.inl hinputs)).eq_of_encode_eq (carries rfl h' (.inl hinputs')) heq
    obtain ⟨hversion, hinputs, houtputs, hlockTime, -, -⟩ := Tx.mk.inj hsame
    exact ⟨hversion, hlockTime, houtputs, hinputs⟩
  · intro hsame
    have hwrite : Codec.write .full tx = Codec.write .full tx' := by
      show Tx.write .full tx = Tx.write .full tx'
      unfold Tx.write hasWitness
      rw [hsame.version, hsame.lockTime, hsame.outputs, hsame.inputs]
    rw [encode, encode, hwrite]

/-- **The preimage of the id that covers witnesses settles all of a transaction.** -/
theorem wtxidPreimage_eq_iff (h : tx.Sized) (h' : tx'.Sized) (hinputs : tx.inputs ≠ [])
    (hinputs' : tx'.inputs ≠ []) :
    tx.wtxidPreimage = tx'.wtxidPreimage ↔ tx.SameContent tx' := by
  rw [wtxidPreimage_eq_encode, wtxidPreimage_eq_encode]
  exact encode_full_eq_iff h h' hinputs hinputs'

/-! ## §4. The two forms -/

theorem inputs_ne_nil_of_hasWitness (h : tx.hasWitness = true) : tx.inputs ≠ [] := by
  intro hnone
  rw [hasWitness, hnone] at h
  cases h

/-- What is left without witnesses has none. -/
theorem hasWitness_bare (tx : Tx) : tx.bare.hasWitness = false := by
  show (bareInputs tx.inputs).any _ = false
  rw [bareInputs, List.any_map]
  exact List.any_eq_false.2 fun _ _ => Bool.false_ne_true

theorem Sized.bare (h : tx.Sized) : tx.bare.Sized where
  inputs := by
    show (bareInputs tx.inputs).length < 2 ^ 64
    rw [bareInputs, List.length_map]
    exact h.inputs
  outputs := h.outputs
  input := by
    intro i hi
    obtain ⟨j, hj, rfl⟩ := List.mem_map.1 hi
    exact ⟨(h.input j hj).script, countable_nil, fun item hitem => absurd hitem List.not_mem_nil⟩
  output := h.output

/-- **No form with witnesses is also a form without**, of the same transaction or of another. -/
theorem extended_ne_legacy (h : tx.Sized) (h' : tx'.Sized) (hwitness : tx.hasWitness = true)
    (hinputs' : tx'.inputs ≠ []) : encode .full tx ≠ tx'.txidPreimage := by
  intro heq
  have hinputs := inputs_ne_nil_of_hasWitness hwitness
  have hbare : tx'.bare.inputs ≠ [] := fun hnone => hinputs' (List.map_eq_nil_iff.1 hnone)
  -- the form without witnesses is the full form of a transaction that has none
  have hlegacy : tx'.txidPreimage = encode .full tx'.bare := by
    rw [encode_full_of_no_witness (hasWitness_bare tx'), txidPreimage, txidPreimage, encode_bare]
  rw [hlegacy] at heq
  have hsame := ((encode_full_eq_iff h h'.bare hinputs hbare).1 heq).inputs
  have hnone := hasWitness_bare tx'
  rw [hasWitness, ← hsame] at hnone
  rw [hasWitness, hnone] at hwitness
  cases hwitness

end Tx

/-! ## §5. Hashes -/

/-- **Preimages settle what is hashed.**  Whatever the digest is, a header's hash is that of eighty
bytes, which settle all but the count of transactions and the hash that is kept.  The ids of a
transaction are those of its two preimages, and the same without a witness.  For lists that can be
counted, the first preimage settles all but witnesses; with an input, the second one settles all, and
a form with witnesses is no form without. -/
theorem preimages_settle_content (hasher : Hasher) :
    (∀ h : Header, h.computeHash hasher = hasher.digest h.preimage ∧ h.preimage.length = 80)
      ∧ (∀ h h' : Header, h.preimage = h'.preimage ↔ h.SameContent h')
      ∧ (∀ tx : Tx, (tx.rehash hasher).txid = hasher.digest tx.txidPreimage
        ∧ (tx.rehash hasher).wtxid = hasher.digest tx.wtxidPreimage
        ∧ (tx.hasWitness = false → (tx.rehash hasher).txid = (tx.rehash hasher).wtxid))
      ∧ ∀ tx tx' : Tx, tx.Sized → tx'.Sized →
        (tx.txidPreimage = tx'.txidPreimage ↔ tx.SameBareContent tx')
        ∧ (tx.inputs ≠ [] → tx'.inputs ≠ [] →
          (tx.wtxidPreimage = tx'.wtxidPreimage ↔ tx.SameContent tx')
          ∧ (tx.hasWitness = true → tx.wtxidPreimage ≠ tx'.txidPreimage)) := by
  refine ⟨fun h => ⟨rfl, h.length_preimage⟩, fun h h' => Header.preimage_eq_iff, ?_, ?_⟩
  · intro tx
    have hwtxid : (tx.rehash hasher).wtxid = hasher.digest tx.wtxidPreimage :=
      (apply_ite hasher.digest _ _ _).symm
    refine ⟨rfl, hwtxid, ?_⟩
    intro hnone
    rw [hwtxid, Tx.wtxidPreimage, hnone]
    rfl
  · intro tx tx' h h'
    refine ⟨Tx.txidPreimage_eq_iff h h', fun hinputs hinputs' => ⟨?_, fun hwitness => ?_⟩⟩
    · exact Tx.wtxidPreimage_eq_iff h h' hinputs hinputs'
    · rw [Tx.wtxidPreimage_eq_encode]
      exact Tx.extended_ne_legacy h h' hwitness hinputs'

/-- A transaction that loses its witness keeps its id and gets another one that covers witnesses,
which is then the same as its id; and a header may be said to stand for any count of transactions. -/
theorem spend_loses_witness :
    Tx.spend.Sized ∧ Tx.spend.inputs ≠ [] ∧ Tx.spend.hasWitness = true
      ∧ Tx.spend.txidPreimage = Tx.spend.bare.txidPreimage
      ∧ Tx.spend.wtxidPreimage ≠ Tx.spend.bare.wtxidPreimage
      ∧ Tx.spend.wtxidPreimage ≠ Tx.spend.bare.txidPreimage
      ∧ (Tx.spend.bare.rehash .doubleSha256).txid = (Tx.spend.bare.rehash .doubleSha256).wtxid
      ∧ ({ Params.regtest.genesis with txCount := 7 } : Header).preimage
        = Params.regtest.genesis.preimage := by
  obtain ⟨-, hheader, hids, htxs⟩ := preimages_settle_content .doubleSha256
  obtain ⟨hbare, hfull⟩ := htxs Tx.spend Tx.spend.bare Tx.sized_spend Tx.sized_spend.bare
  have hinputs : Tx.spend.inputs ≠ [] := List.cons_ne_nil _ _
  obtain ⟨hcontent, hforms⟩ := hfull hinputs (List.cons_ne_nil _ _)
  refine ⟨Tx.sized_spend, hinputs, rfl, ?_, ?_, hforms rfl, (hids _).2.2 rfl, ?_⟩
  · exact hbare.2 ⟨rfl, rfl, rfl, .cons ⟨rfl, rfl, rfl⟩ .nil⟩
  · intro heq
    exact absurd (hcontent.1 heq).inputs (by decide)
  · exact (hheader _ _).2 ⟨rfl, rfl, rfl, rfl, rfl, rfl⟩

end HeaderPeer
