/-
  HeaderPeer.Proofs.Tx.Marker — the two forms of a transaction, and the byte that tells them apart.

  A reader that knows witnesses takes an empty list of inputs for a marker: a flag byte follows, and
  it announces what stands behind the lists.  A transaction with outputs alone begins with that very
  marker, so it is the one kind of transaction that does not come back.

  Main statements:
    * `read_marked` — behind the marker and the flag, the reader goes on with both lists.
    * `witnessed_of_marked` — what is read that way has the one flag that is known, and a witness.
    * `run_announced_superfluous`, `run_announced_unknown` — what is refused behind the lists.
    * `codec_and_marker` — which transactions come back, and what the marker lets through.
-/
import HeaderPeer.Proofs.Tx.RoundTrip

namespace HeaderPeer.Tx

open Wire

variable {l : Layout} {t : Tx} {data body rest : Bytes} {flags : UInt8}

/-! ## §1. The marker -/

/-- The bytes begin as a transaction with announced data does: with a version, a count of zero where
the inputs are counted, and a flag byte that is not zero.  `body` follows. -/
structure Marked (data : Bytes) (flags : UInt8) (body : Bytes) : Prop where
  flags_ne : flags ≠ 0
  begins : ∃ version afterVersion afterCount, Get.int32LE.run data = .ok version afterVersion
    ∧ Get.count.run afterVersion = .ok 0 afterCount ∧ Get.uint8.run afterCount = .ok flags body

/-- The inputs with their witnesses, if the flag announces any. -/
def readStacks (l : Layout) (flags : UInt8) (inputs : List TxInput) : Get (List TxInput) :=
  if flags &&& witnessFlag ≠ 0 then readWitnesses l inputs else pure inputs

/-- All that stands between the flag and the lock time. -/
def readParts (l : Layout) (flags : UInt8) : Get (List TxInput × List TxOutput) := do
  let inputs ← Codec.read l
  let outputs ← Codec.read l
  let inputs ← readStacks l flags inputs
  return (inputs, outputs)

/-- All that stands behind the flag, and what the flag lets through of it. -/
def readBehind (l : Layout) (version : Int32) (flags : UInt8) : Get Tx := do
  let inputs ← Codec.read l
  let outputs ← Codec.read l
  let inputs ← readAnnounced l flags inputs
  let lockTime ← Get.uint32LE
  return { version, inputs, outputs, lockTime, txid := 0, wtxid := 0 }

/-- A count of zero is the whole of an empty list. -/
theorem run_list_of_zero {α : Type} [Codec α] (h : Get.count.run data = .ok 0 rest) :
    (Codec.read l : Get (List α)).run data = .ok [] rest := by
  show (Get.count >>= Get.times (Codec.read l)).run data = _
  rw [run_bind h]
  rfl

/-- **Behind the marker and the flag the reader goes on with both lists.** -/
theorem read_marked (hl : l.witness = true) (h : Marked data flags body) :
    ∃ version, (Tx.read l).run data = (readBehind l version flags).run body := by
  obtain ⟨version, afterVersion, afterCount, hversion, hcount, hflags⟩ := h.begins
  refine ⟨version, ?_⟩
  unfold Tx.read readLists
  simp only [bind_assoc]
  rw [run_bind hversion, run_bind (run_list_of_zero hcount), hl]
  simp only [List.isEmpty_nil, Bool.and_self, if_true, bind_assoc]
  rw [run_bind hflags, if_neg h.flags_ne]
  simp only [bind_assoc, pure_bind]
  rfl

/-! ## §2. Bits of the flag -/

/-- Where the known bit is set, turning it over takes it off. -/
theorem xor_witnessFlag (h : flags &&& witnessFlag ≠ 0) :
    flags ^^^ witnessFlag = flags &&& ~~~witnessFlag := by
  have hall : ∀ b : BitVec 8, b &&& 1 ≠ 0 → b ^^^ 1 = b &&& ~~~1 := by decide
  apply UInt8.toBitVec_inj.1
  exact hall flags.toBitVec fun hzero => h (UInt8.toBitVec_inj.1 hzero)

/-- Where it is not set, there is nothing to take off. -/
theorem and_not_witnessFlag (h : flags &&& witnessFlag = 0) : flags &&& ~~~witnessFlag = flags := by
  have hall : ∀ b : BitVec 8, b &&& 1 = 0 → b &&& ~~~1 = b := by decide
  apply UInt8.toBitVec_inj.1
  exact hall flags.toBitVec (congrArg UInt8.toBitVec h)

/-! ## §3. What the flag lets through -/

variable {inputs inputs' : List TxInput} {outputs : List TxOutput}

/-- The flag announces witnesses, but none of them holds anything. -/
structure Superfluous (flags : UInt8) (inputs : List TxInput) : Prop where
  announced : flags &&& witnessFlag ≠ 0
  bare : ∀ i ∈ inputs, i.witness.isEmpty = true

/-- Witnesses that hold nothing are refused. -/
theorem run_announced_superfluous (hstacks : (readStacks l flags inputs).run data = .ok inputs' rest)
    (h : Superfluous flags inputs') :
    (readAnnounced l flags inputs).run data = .error .superfluousWitness rest := by
  unfold readStacks at hstacks
  rw [if_pos h.announced] at hstacks
  unfold readAnnounced
  rw [if_pos h.announced, run_bind hstacks, if_pos (List.all_eq_true.2 h.bare)]
  rfl

/-- Bits that are not known are refused. -/
theorem run_announced_unknown (hstacks : (readStacks l flags inputs).run data = .ok inputs' rest)
    (hne : flags ≠ 0) (hsuperfluous : ¬ Superfluous flags inputs') (hknown : flags ≠ witnessFlag) :
    (readAnnounced l flags inputs).run data
      = .error (.unknownOptionalData (flags &&& ~~~witnessFlag)) rest := by
  unfold readStacks at hstacks
  unfold readAnnounced
  by_cases hbit : flags &&& witnessFlag ≠ 0
  · have hheld : ¬ (inputs'.all fun i => i.witness.isEmpty) = true := fun hall =>
      hsuperfluous ⟨hbit, List.all_eq_true.1 hall⟩
    have hleft : flags ^^^ witnessFlag ≠ 0 := fun hzero =>
      hknown (UInt8.xor_eq_zero_iff.1 hzero)
    rw [if_pos hbit] at hstacks ⊢
    rw [run_bind hstacks, if_neg hheld, if_pos hleft, xor_witnessFlag hbit]
    rfl
  · -- without the known bit no witness is read, and the flag is reported as it is
    rw [if_neg hbit] at hstacks ⊢
    cases hstacks
    rw [if_pos hne, and_not_witnessFlag (Decidable.not_not.1 hbit)]
    rfl

/-- What is refused behind the lists is how the transaction is refused. -/
theorem read_of_refused (hl : l.witness = true) (h : Marked data flags body)
    (hparts : (readParts l flags).run body = .ok (inputs, outputs) rest) {e : Error}
    (hrefused : ∀ plain mid, (readStacks l flags plain).run mid = .ok inputs rest →
      (readAnnounced l flags plain).run mid = .error e rest) :
    (Tx.read l).run data = .error e rest := by
  obtain ⟨version, hread⟩ := read_marked hl h
  unfold readParts at hparts
  obtain ⟨plain, afterInputs, hinputs, hparts⟩ := ok_of_run_bind hparts
  obtain ⟨outputs', afterOutputs, houtputs, hparts⟩ := ok_of_run_bind hparts
  obtain ⟨stacked, afterStacks, hstacks, hparts⟩ := ok_of_run_bind hparts
  cases hparts
  rw [hread, readBehind, run_bind hinputs, run_bind houtputs,
    run_bind_error (hrefused plain afterOutputs hstacks)]

/-- Where a flag lets inputs through, it is the known bit alone, and some witness holds something. -/
theorem yields_announced_of_flag (hne : flags ≠ 0) :
    Yields (readAnnounced l flags inputs) fun inputs' =>
      flags = witnessFlag ∧ (inputs'.any fun i => !i.witness.isEmpty) = true := by
  refine yields_ite (fun hbit => yields_bind fun inputs' => ?_) fun _ => ?_
  · refine yields_ite (fun _ => yields_throw_bind _ _ _) fun hheld => ?_
    refine yields_ite (fun _ => yields_throw_bind _ _ _) fun hleft => yields_pure ⟨?_, ?_⟩
    · exact UInt8.xor_eq_zero_iff.1 (Decidable.not_not.1 hleft)
    · rw [List.all_eq_not_any_not, Bool.not_eq_true', Bool.not_eq_false] at hheld
      exact hheld
  · exact yields_ite (fun _ => yields_throw_bind _ _ _) fun hzero => absurd hne hzero

/-- **A transaction read through the marker has the known flag and a witness.** -/
theorem witnessed_of_marked (hl : l.witness = true) (h : Marked data flags body)
    (hread : (Tx.read l).run data = .ok t rest) : flags = witnessFlag ∧ t.hasWitness = true := by
  obtain ⟨version, hbody⟩ := read_marked hl h
  have hyields : Yields (readBehind l version flags) fun t =>
      flags = witnessFlag ∧ t.hasWitness = true :=
    yields_bind fun _ => yields_bind fun _ => (yields_announced_of_flag h.flags_ne).bind
      fun _ hheld => yields_bind fun _ => yields_pure hheld
  exact hyields body t rest (hbody.symm.trans hread)

/-! ## §4. The codec -/

/-- **Which transactions come back, and what the marker lets through.**  Where witnesses are not
known, every transaction comes back without them.  Where they are, a transaction comes back exactly
if it has an input or no output, and nothing else is ever read.  Behind the marker, only the known
flag is let through, with a witness that holds something; witnesses that hold nothing are refused,
and so are the other bits of any other flag. -/
theorem codec_and_marker (l : Layout) :
    (l.witness = false → ∀ (t : Tx) (tail : Bytes), t.Sized →
        (Tx.read l).run (encode l t ++ tail)
          = .ok { t with inputs := bareInputs t.inputs, txid := 0, wtxid := 0 } tail)
      ∧ (l.witness = true →
        (∀ (t : Tx) (tail : Bytes), t.Sized →
          ((Tx.read l).run (encode l t ++ tail) = .ok { t with txid := 0, wtxid := 0 } tail
            ↔ t.inputs ≠ [] ∨ t.outputs = []))
        ∧ (∀ data t rest, (Tx.read l).run data = .ok t rest → t.inputs ≠ [] ∨ t.outputs = [])
        ∧ ∀ data flags body, Marked data flags body →
          (∀ t rest, (Tx.read l).run data = .ok t rest →
            flags = 0x01 ∧ ∃ i ∈ t.inputs, i.witness.items ≠ [])
          ∧ ∀ inputs outputs rest, (readParts l flags).run body = .ok (inputs, outputs) rest →
            (Superfluous flags inputs → (Tx.read l).run data = .error .superfluousWitness rest)
            ∧ (¬ Superfluous flags inputs → flags ≠ 0x01 →
              (Tx.read l).run data = .error (.unknownOptionalData (flags &&& ~~~0x01)) rest)) := by
  refine ⟨fun hl t tail hsized => (carries_bare hl hsized).run_encode tail, fun hl => ?_⟩
  have hshape : ∀ data t rest, (Tx.read l).run data = .ok t rest →
      t.inputs ≠ [] ∨ t.outputs = [] := fun data t rest hread => (yields hl data t rest hread).2
  refine ⟨?_, hshape, ?_⟩
  · intro t tail hsized
    constructor
    · exact hshape _ _ _
    · exact fun h => (carries hl hsized h).run_encode tail
  · intro data flags body h
    constructor
    · intro t rest hread
      obtain ⟨hflags, hwitness⟩ := witnessed_of_marked hl h hread
      obtain ⟨i, hi, hheld⟩ := List.any_eq_true.1 hwitness
      refine ⟨hflags, i, hi, ?_⟩
      intro hnone
      rw [Witness.isEmpty, hnone] at hheld
      cases hheld
    · intro inputs outputs rest hparts
      constructor
      · intro hsuperfluous
        exact read_of_refused hl h hparts fun plain mid hstacks =>
          run_announced_superfluous hstacks hsuperfluous
      · intro hsuperfluous hknown
        exact read_of_refused hl h hparts fun plain mid hstacks =>
          run_announced_unknown hstacks h.flags_ne hsuperfluous hknown

/-- A transaction with one input, whose witness holds two strings, and one output. -/
def spend : Tx where
  version := 2
  inputs := [{
    previous := ⟨3, 1⟩, script := [], sequence := 0xffffffff, witness := ⟨[[0x30, 0x45], [0x02]]⟩ }]
  outputs := [{ value := 10000, script := [0x00, 0x14] }]
  lockTime := 0
  txid := 0
  wtxid := 0

theorem sized_spend : spend.Sized := by
  refine ⟨?_, ?_, ?_, ?_⟩
  · show 1 < 2 ^ 64
    decide
  · show 1 < 2 ^ 64
    decide
  · intro i hi
    obtain rfl := List.mem_singleton.1 hi
    refine ⟨?_, ?_, ?_⟩
    · show 0 < 2 ^ 64
      decide
    · show 2 < 2 ^ 64
      decide
    · intro item hitem
      have hshort : ∀ item ∈ ([[0x30, 0x45], [0x02]] : List Bytes), item.length < 2 ^ 64 := by
        decide
      exact hshort item hitem
  · intro o ho
    obtain rfl := List.mem_singleton.1 ho
    show 2 < 2 ^ 64
    decide

/-- A transaction comes back with its witness or without it, whatever follows; a flag with the known
bit and no inputs is superfluous, and another one is not known. -/
theorem spend_and_flags :
    (Tx.read .full).run (encode .full spend ++ [7]) = .ok { spend with txid := 0, wtxid := 0 } [7]
      ∧ (Tx.read .stripped).run (encode .stripped spend ++ [7])
        = .ok { spend with inputs := bareInputs spend.inputs, txid := 0, wtxid := 0 } [7]
      ∧ (Tx.read .full).run [1, 0, 0, 0, 0, 3, 0, 0] = .error .superfluousWitness []
      ∧ (Tx.read .full).run [1, 0, 0, 0, 0, 6, 0, 0] = .error (.unknownOptionalData 6) [] := by
  obtain ⟨hback, -, hmarker⟩ := (codec_and_marker .full).2 rfl
  have hmarked : Marked [1, 0, 0, 0, 0, 3, 0, 0] 3 [0, 0] :=
    ⟨by decide, 1, [0, 3, 0, 0], [3, 0, 0], rfl, rfl, rfl⟩
  have hmarked' : Marked [1, 0, 0, 0, 0, 6, 0, 0] 6 [0, 0] :=
    ⟨by decide, 1, [0, 6, 0, 0], [6, 0, 0], rfl, rfl, rfl⟩
  refine ⟨(hback spend [7] sized_spend).2 (.inl (List.cons_ne_nil _ _)),
    (codec_and_marker .stripped).1 rfl spend [7] sized_spend, ?_, ?_⟩
  · refine ((hmarker _ 3 [0, 0] hmarked).2 [] [] [] rfl).1 ⟨by decide, ?_⟩
    exact fun i hi => nomatch hi
  · refine ((hmarker _ 6 [0, 0] hmarked').2 [] [] [] rfl).2 ?_ (by decide)
    exact fun h => h.announced (by decide)

end HeaderPeer.Tx
