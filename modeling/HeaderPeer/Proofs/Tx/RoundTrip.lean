/-
  HeaderPeer.Proofs.Tx.RoundTrip — transactions, headers and blocks come back from the wire.

  A transaction has two forms.  The one with witness data announces itself by an empty list of
  inputs, so the other must not begin with one unless the transaction is empty altogether.

  Main statements:
    * `Tx.carries_onWire`, `Block.carries` — what comes back of each, under every layout.
    * `Tx.yields`, `Block.yields` — what is read is something that would come back.
-/
import HeaderPeer.Proofs.Message.Representable
import HeaderPeer.Proofs.Wire.RoundTrip
import HeaderPeer.Proofs.Wire.Yields

namespace HeaderPeer

open Wire

variable {l : Layout}

/-! ## §1. Parts of transactions -/

theorem Outpoint.carries (l : Layout) (o : Outpoint) :
    Carries (Codec.write l o) (Codec.read l) o :=
  (carries_word256 o.hash).bind ((carries_uint32LE o.index).finish rfl)

theorem TxInput.carries (l : Layout) {i : TxInput} (h : Countable i.script) :
    Carries (Codec.write l i) (Codec.read l) { i with witness := .none } := by
  show Carries (Codec.write l i.previous ++ .byteArray i.script ++ .uint32LE i.sequence) _ _
  rw [Put.append_assoc]
  refine (Outpoint.carries l i.previous).bind ?_
  refine (carries_byteArray h).bind ?_
  exact (carries_uint32LE i.sequence).finish rfl

theorem TxOutput.carries (l : Layout) {o : TxOutput} (h : Countable o.script) :
    Carries (Codec.write l o) (Codec.read l) o :=
  (carries_int64LE o.value).bind ((carries_byteArray h).finish rfl)

theorem Witness.carries (l : Layout) {w : Witness} (hitems : Countable w.items)
    (hitem : ∀ item ∈ w.items, Countable item) :
    Carries (Codec.write l w) (Codec.read l) w := by
  have hlist := carries_list_same hitems fun item hmem => carries_byteArray (hitem item hmem)
  exact hlist.finish rfl

theorem TxInput.yields (l : Layout) :
    Yields (Codec.read l : Get TxInput) fun i => Countable i.script ∧ i.witness = .none :=
  yields_bind fun _ => yields_byteArray.bind fun _ hscript => yields_bind fun _ =>
    yields_pure ⟨hscript, rfl⟩

theorem TxOutput.yields (l : Layout) :
    Yields (Codec.read l : Get TxOutput) fun o => Countable o.script :=
  yields_bind fun _ => yields_byteArray.map fun _ hscript => hscript

theorem Witness.yields (l : Layout) :
    Yields (Codec.read l : Get Witness) fun w =>
      Countable w.items ∧ ∀ item ∈ w.items, Countable item :=
  (yields_list yields_byteArray).map fun _ h => h

/-! ## §2. Witnesses -/

namespace Tx

/-- Witnesses written for inputs are read as theirs. -/
theorem carries_witnesses (l : Layout) {inputs : List TxInput} (h : ∀ i ∈ inputs, i.Sized) :
    Carries (writeWitnesses l inputs)
      (readWitnesses l (inputs.map fun i => { i with witness := .none })) inputs := by
  induction inputs with
  | nil => exact carries_pure []
  | cons i inputs ih =>
    have hi := h i List.mem_cons_self
    have hrest := ih fun j hj => h j (List.mem_cons_of_mem i hj)
    unfold readWitnesses writeWitnesses at hrest ⊢
    -- the first input gets its witness back, and the rest of the bytes are those of the others
    rw [Put.each_cons, List.map_cons, List.mapM_cons]
    refine Carries.bind (a := i) ?_ (hrest.map fun rest => i :: rest)
    exact (Witness.carries l hi.witness hi.items).finish rfl

/-- Inputs get their witnesses and are otherwise as they were. -/
theorem yields_witnesses (l : Layout) {inputs : List TxInput}
    (h : ∀ i ∈ inputs, Countable i.script) :
    Yields (readWitnesses l inputs) fun inputs' =>
      inputs'.length = inputs.length ∧ ∀ i ∈ inputs', i.Sized := by
  induction inputs with
  | nil => exact yields_pure ⟨rfl, fun i hi => nomatch hi⟩
  | cons i inputs ih =>
    have hrest := ih fun j hj => h j (List.mem_cons_of_mem i hj)
    unfold readWitnesses at hrest ⊢
    rw [List.mapM_cons]
    have hfirst : Yields (do return { i with witness := ← Codec.read l }) TxInput.Sized :=
      (Witness.yields l).map fun w hw => ⟨h i List.mem_cons_self, hw.1, hw.2⟩
    refine hfirst.bind fun i' hi' => hrest.map fun rest hrest' => ⟨?_, ?_⟩
    · rw [List.length_cons, List.length_cons, hrest'.1]
    · exact List.forall_mem_cons.2 ⟨hi', hrest'.2⟩

/-! ## §3. Transactions -/

/-- Inputs as they are read before their witnesses. -/
def bareInputs (inputs : List TxInput) : List TxInput :=
  inputs.map fun i => { i with witness := .none }

theorem carries_inputs (l : Layout) {t : Tx} (h : t.Sized) :
    Carries (Codec.write l t.inputs) (Codec.read l) (bareInputs t.inputs) :=
  carries_list h.inputs fun i hi => TxInput.carries l (h.input i hi).script

theorem carries_outputs (l : Layout) {t : Tx} (h : t.Sized) :
    Carries (Codec.write l t.outputs) (Codec.read l) t.outputs :=
  carries_list_same h.outputs fun o ho => TxOutput.carries l (h.output o ho)

/-- A zero byte is an empty list of inputs. -/
theorem carries_noInputs (l : Layout) :
    Carries (.uint8 0) (Codec.read l : Get (List TxInput)) [] := by
  have hnone : ∀ i ∈ ([] : List TxInput), Carries (Codec.write l i) (Codec.read l) i :=
    fun i hi => nomatch hi
  exact carries_list_same countable_nil hnone

/-- The lists behind the marker and the flag. -/
theorem carries_markedLists (hl : l.witness = true) {t : Tx} (h : t.Sized) :
    Carries
      (.uint8 0 ++ (.uint8 witnessFlag ++ (Codec.write l t.inputs ++ Codec.write l t.outputs)))
      (readLists l) (witnessFlag, bareInputs t.inputs, t.outputs) := by
  unfold readLists
  -- the marker is an empty list of inputs, behind which the reader looks for the flag
  refine (carries_noInputs l).bind ?_
  rw [hl]
  refine (carries_uint8 witnessFlag).bind ?_
  rw [if_neg (by decide)]
  exact (carries_inputs l h).bind ((carries_outputs l h).finish rfl)

/-- The lists of a transaction that does not begin like the other form. -/
theorem carries_plainLists (hl : l.witness = true) {t : Tx} (h : t.Sized)
    (hshape : t.inputs ≠ [] ∨ t.outputs = []) :
    Carries (Codec.write l t.inputs ++ Codec.write l t.outputs) (readLists l)
      (0, bareInputs t.inputs, t.outputs) := by
  unfold readLists
  by_cases hinputs : t.inputs = []
  · -- the empty list of outputs is read as a flag that announces nothing
    have houtputs : t.outputs = [] := hshape.resolve_left fun hne => hne hinputs
    rw [hinputs, houtputs]
    refine Carries.bind (carries_noInputs l) ?_
    rw [hl]
    exact (carries_uint8 0).finish rfl
  · refine (carries_inputs l h).bind ?_
    have hne : (bareInputs t.inputs).isEmpty = false := by
      rw [List.isEmpty_eq_false_iff, bareInputs, Ne, List.map_eq_nil_iff]
      exact hinputs
    rw [hne, Bool.and_false]
    exact (carries_outputs l h).finish rfl

/-- The witnesses that the flag announces. -/
theorem carries_announced (l : Layout) {t : Tx} (h : t.Sized) (hwitness : t.hasWitness = true) :
    Carries (writeWitnesses l t.inputs) (readAnnounced l witnessFlag (bareInputs t.inputs))
      t.inputs := by
  unfold readAnnounced
  rw [if_pos (by decide)]
  refine (carries_witnesses l h.input).finish ?_
  have hsome : (t.inputs.all fun i => i.witness.isEmpty) = false := by
    rw [List.all_eq_not_any_not]
    show (!t.hasWitness) = false
    rw [hwitness]
    rfl
  rw [hsome]
  rfl

theorem bareInputs_of_no_witness {t : Tx} (h : ¬ t.hasWitness = true) :
    bareInputs t.inputs = t.inputs := by
  have hbare : ∀ i ∈ t.inputs, ({ i with witness := .none } : TxInput) = i := by
    intro i hi
    have hempty : i.witness.isEmpty = true := by
      cases hsome : i.witness.isEmpty with
      | true => rfl
      | false => exact absurd (List.any_eq_true.2 ⟨i, hi, by rw [hsome]; rfl⟩) h
    have hnone : i.witness = .none := by
      rw [Witness.isEmpty, List.isEmpty_iff] at hempty
      rw [Witness.none, ← hempty]
    rw [← hnone]
  rw [bareInputs, List.map_congr_left hbare, List.map_id']

/-- Where witnesses are not known, an empty list of inputs is not a marker. -/
theorem carries_bareLists (hl : l.witness = false) {t : Tx} (h : t.Sized) :
    Carries (Codec.write l t.inputs ++ Codec.write l t.outputs) (readLists l)
      (0, bareInputs t.inputs, t.outputs) := by
  unfold readLists
  refine (carries_inputs l h).bind ?_
  rw [hl, Bool.false_and]
  exact (carries_outputs l h).finish rfl

/-- A transaction that is written without the marker is read as its lists are. -/
theorem carries_unmarked {t : Tx} {inputs : List TxInput} (h : (l.witness && t.hasWitness) = false)
    (hlists : Carries (Codec.write l t.inputs ++ Codec.write l t.outputs) (readLists l)
      (0, inputs, t.outputs)) :
    Carries (Tx.write l t) (Tx.read l) { t with inputs := inputs, txid := 0, wtxid := 0 } := by
  -- what is written, in the parts in which it is read
  have hput : Put.int32LE t.version ++ Codec.write l t.inputs ++ Codec.write l t.outputs
        ++ .uint32LE t.lockTime
      = .int32LE t.version ++ ((Codec.write l t.inputs ++ Codec.write l t.outputs)
        ++ (.nothing ++ .uint32LE t.lockTime)) := by
    simp only [Put.append_assoc, Put.nothing_append]
  unfold Tx.write Tx.read
  rw [h, if_neg Bool.false_ne_true, hput]
  refine (carries_int32LE t.version).bind ?_
  refine hlists.bind ?_
  -- a flag of zero announces nothing, so nothing stands between the lists and the lock time
  refine (carries_pure inputs).bind ?_
  exact (carries_uint32LE t.lockTime).finish rfl

/-- Where witnesses are known, a transaction comes back without its ids. -/
theorem carries (hl : l.witness = true) {t : Tx} (hsized : t.Sized)
    (hshape : t.inputs ≠ [] ∨ t.outputs = []) :
    Carries (Tx.write l t) (Tx.read l) { t with txid := 0, wtxid := 0 } := by
  by_cases hwitness : t.hasWitness = true
  · have hput : Put.int32LE t.version ++ .uint8 0 ++ .uint8 witnessFlag ++ Codec.write l t.inputs
          ++ Codec.write l t.outputs ++ writeWitnesses l t.inputs ++ .uint32LE t.lockTime
        = .int32LE t.version
          ++ ((.uint8 0 ++ (.uint8 witnessFlag ++ (Codec.write l t.inputs
            ++ Codec.write l t.outputs)))
          ++ (writeWitnesses l t.inputs ++ .uint32LE t.lockTime)) := by
      simp only [Put.append_assoc]
    unfold Tx.write Tx.read
    rw [hl, Bool.true_and, if_pos hwitness, hput]
    refine (carries_int32LE t.version).bind ?_
    refine (carries_markedLists hl hsized).bind ?_
    refine (carries_announced l hsized hwitness).bind ?_
    exact (carries_uint32LE t.lockTime).finish rfl
  · have hplain := carries_plainLists hl hsized hshape
    rw [bareInputs_of_no_witness hwitness] at hplain
    refine carries_unmarked ?_ hplain
    rw [hl, Bool.true_and, Bool.eq_false_iff]
    exact hwitness

/-- **Where witnesses are not known, a transaction comes back without them.** -/
theorem carries_bare (hl : l.witness = false) {t : Tx} (hsized : t.Sized) :
    Carries (Tx.write l t) (Tx.read l)
      { t with inputs := bareInputs t.inputs, txid := 0, wtxid := 0 } :=
  carries_unmarked (by rw [hl, Bool.false_and]) (carries_bareLists hl hsized)

/-- The transaction can be written so that it is found again: its lists can be counted, and where
witnesses are known it does not begin like the other form. -/
structure Fits (l : Layout) (t : Tx) : Prop where
  sized : t.Sized
  shape : l.witness = true → t.inputs ≠ [] ∨ t.outputs = []

/-- A transaction as it comes out at the other end: without its ids, and without its witnesses where
they are not known. -/
def onWire (l : Layout) (t : Tx) : Tx :=
  { t with
    inputs := if l.witness then t.inputs else bareInputs t.inputs
    txid := 0
    wtxid := 0 }

theorem carries_onWire {t : Tx} (h : t.Fits l) : Carries (Tx.write l t) (Tx.read l) (t.onWire l) := by
  unfold onWire
  cases hl : l.witness with
  | true => exact carries hl h.sized (h.shape hl)
  | false => exact carries_bare hl h.sized

/-- The lists that are read can be counted.  An empty list of inputs comes with no outputs, or the
flag announces something. -/
theorem yields_readLists (hl : l.witness = true) :
    Yields (readLists l) fun x =>
      (Countable x.2.1 ∧ ∀ i ∈ x.2.1, Countable i.script ∧ i.witness = .none)
        ∧ (Countable x.2.2 ∧ ∀ o ∈ x.2.2, Countable o.script)
        ∧ (x.2.1 ≠ [] ∨ x.2.2 = [] ∨ x.1 ≠ 0) := by
  have hinputs : Yields (Codec.read l : Get (List TxInput)) fun is =>
      Countable is ∧ ∀ i ∈ is, Countable i.script ∧ i.witness = .none :=
    yields_list (TxInput.yields l)
  have houtputs : Yields (Codec.read l : Get (List TxOutput)) fun os =>
      Countable os ∧ ∀ o ∈ os, Countable o.script :=
    yields_list (TxOutput.yields l)
  refine hinputs.bind fun is his => yields_ite (fun _ => ?_) fun hplain => ?_
  · -- no inputs so far: the next byte is a flag, and zero stands for no outputs
    refine yields_bind fun flags => yields_ite (fun _ => ?_) fun hflags => ?_
    · exact yields_pure ⟨⟨countable_nil, fun i hi => nomatch hi⟩,
        ⟨countable_nil, fun o ho => nomatch ho⟩, .inr (.inl rfl)⟩
    · exact hinputs.bind fun is' his' => houtputs.map fun os hos =>
        ⟨his', hos, .inr (.inr hflags)⟩
  · -- the other form, which has an input
    refine houtputs.map fun os hos => ⟨his, hos, .inl ?_⟩
    rintro rfl
    rw [hl] at hplain
    exact hplain rfl

/-- Inputs that come with announced data have a witness among them. -/
theorem yields_announced (l : Layout) (flags : UInt8) {inputs : List TxInput}
    (h : Countable inputs ∧ ∀ i ∈ inputs, Countable i.script ∧ i.witness = .none) :
    Yields (readAnnounced l flags inputs) fun inputs' =>
      Countable inputs' ∧ (∀ i ∈ inputs', i.Sized) ∧ (inputs' = [] → inputs = [] ∧ flags = 0) := by
  unfold readAnnounced
  refine yields_ite (fun _ => ?_) fun hnone => ?_
  · refine (yields_witnesses l fun i hi => (h.2 i hi).1).bind fun is his => ?_
    -- neither no inputs nor no witnesses are let through here
    refine yields_ite (fun _ => yields_throw_bind _ _ _) fun hsome => ?_
    refine yields_ite (fun _ => yields_throw_bind _ _ _) fun _ => yields_pure ⟨?_, his.2, ?_⟩
    · rw [Countable, his.1]
      exact h.1
    · rintro rfl
      exact absurd rfl hsome
  · refine yields_ite (fun _ => yields_throw_bind _ _ _) fun hflags => yields_pure ⟨h.1, ?_, ?_⟩
    · intro i hi
      obtain ⟨hscript, hwitness⟩ := h.2 i hi
      refine ⟨hscript, ?_, ?_⟩
      · rw [hwitness]
        exact countable_nil
      · rw [hwitness]
        exact fun item hitem => nomatch hitem
    · exact fun hempty => ⟨hempty, Decidable.not_not.1 hflags⟩

/-- A transaction that is read is one that would come back. -/
theorem yields (hl : l.witness = true) :
    Yields (Tx.read l) fun t => t.Sized ∧ (t.inputs ≠ [] ∨ t.outputs = []) := by
  refine yields_bind fun version => (yields_readLists hl).bind fun x hx => ?_
  obtain ⟨flags, is, os⟩ := x
  obtain ⟨his, hos, hshape⟩ := hx
  refine (yields_announced l flags his).bind fun is' his' => yields_bind fun lockTime => ?_
  obtain ⟨hcount, hsized, hempty⟩ := his'
  refine yields_pure ⟨⟨hcount, hos.1, hsized, hos.2⟩, ?_⟩
  -- without inputs in the end there were none before and no flag, so there are no outputs
  by_cases hnone : is' = []
  · obtain ⟨rfl, rfl⟩ := hempty hnone
    exact .inr ((hshape.resolve_left fun hne => hne rfl).resolve_right fun hne => hne rfl)
  · exact .inl hnone

end Tx

/-! ## §4. Headers and blocks -/

/-- A header as it comes out at the other end: without its hash and, inside a block, without a count
of transactions. -/
def Header.onWire (l : Layout) (h : Header) : Header :=
  { h with txCount := if l.bareHeader then 0 else h.txCount, hash := 0 }

theorem Header.carries (l : Layout) (h : Header) :
    Carries (Header.write l h) (Header.read l) (h.onWire l) := by
  unfold Header.write Header.read Header.onWire
  simp only [Put.append_assoc]
  refine (carries_int32LE h.version).bind ?_
  refine (carries_word256 h.previous).bind ?_
  refine (carries_word256 h.merkleRoot).bind ?_
  refine (carries_uint32LE h.time).bind ?_
  refine (carries_uint32LE h.bits).bind ?_
  refine (carries_uint32LE h.nonce).bind ?_
  by_cases hbare : l.bareHeader = true
  · rw [if_pos hbare, if_pos hbare, if_pos hbare]
    exact (carries_pure 0).finish rfl
  · rw [if_neg hbare, if_neg hbare, if_neg hbare]
    exact (carries_varInt h.txCount).finish rfl

/-- A header inside a block is read without a count of transactions. -/
theorem Header.yields_insideBlock (l : Layout) :
    Yields (Header.read l.insideBlock) fun h => h.txCount = 0 := by
  unfold Header.read
  refine yields_bind fun _ => yields_bind fun _ => yields_bind fun _ => yields_bind fun _ =>
    yields_bind fun _ => yields_bind fun _ => ?_
  have hcount : Yields (if l.insideBlock.bareHeader then pure 0 else Get.varInt) fun n => n = 0 :=
    yields_pure rfl
  exact hcount.map fun _ h => h

namespace Block

variable {b : Block}

/-- The block can be written so that it is found again. -/
structure Fits (l : Layout) (b : Block) : Prop where
  count : Countable b.txs
  txs : ∀ t ∈ b.txs, t.Fits l

/-- A block as it comes out at the other end. -/
def onWire (l : Layout) (b : Block) : Block where
  header := b.header.onWire l.insideBlock
  txs := b.txs.map (Tx.onWire l)

theorem carries (h : b.Fits l) : Carries (Codec.write l b) (Codec.read l) (b.onWire l) := by
  have htxs : Carries (Codec.write l b.txs) (Codec.read l) (b.txs.map (Tx.onWire l)) :=
    carries_list h.count fun t ht => Tx.carries_onWire (h.txs t ht)
  refine Carries.bind (Header.carries l.insideBlock b.header) ?_
  exact htxs.finish rfl

theorem yields (hl : l.witness = true) :
    Yields (Codec.read l : Get Block) fun b =>
      b.header.txCount = 0 ∧ Countable b.txs
        ∧ ∀ t ∈ b.txs, t.Sized ∧ (t.inputs ≠ [] ∨ t.outputs = []) := by
  have htxs : Yields (Codec.read l : Get (List Tx)) _ := yields_list (Tx.yields hl)
  exact (Header.yields_insideBlock l).bind fun h hh => htxs.map fun txs h' => ⟨hh, h'⟩

end Block

end HeaderPeer
