/-
  HeaderPeer.Proofs.Rule.TxFaults — which transactions pass by themselves, and what is said of the
  rest.

  The checks run in a fixed order and the first that fails is reported.  `Sound` says what a
  transaction must be like, with the outputs added up as integers, and `FirstFault` what is the
  first thing wrong with it; a fault of the outputs belongs to the first output with which something
  is wrong.

  Main statements:
    * `repeated?_eq_some_iff` — the search for an outpoint finds the first that was there before.
    * `checkNulls_eq_ok_iff`, `checkNulls_eq_error_iff` — where the null outpoint may stand.
    * `check_eq_error_iff` — what is reported of a transaction.
    * `check_exact` — all of this of every transaction, and the running sum is never off.
-/
import HeaderPeer.Proofs.Rule.Outputs
import HeaderPeer.Proofs.Rule.Tx

namespace HeaderPeer.Tx

/-! ## §1. What is asked of a transaction -/

/-- Something is spent and something is created. -/
structure Filled (tx : Tx) : Prop where
  inputs : tx.inputs ≠ []
  outputs : tx.outputs ≠ []

/-- The transaction weighs no more than a block may.  A weight is a 64-bit number and stays at the
largest one. -/
def WithinWeight (p : Params) (tx : Tx) : Prop :=
  min (tx.strippedSize * p.witnessScale.toNat) (2 ^ 64 - 1) ≤ p.maxBlockWeight.toNat

/-- The length that the script of a coinbase may have. -/
def CoinbaseLength (length : Nat) : Prop := 2 ≤ length ∧ length ≤ 100

instance (length : Nat) : Decidable (CoinbaseLength length) :=
  inferInstanceAs (Decidable (2 ≤ length ∧ length ≤ 100))

/-- The null outpoint is spent by the one input of a coinbase, or by no input. -/
def NullsInPlace (inputs : List TxInput) : Prop :=
  (∃ input, inputs = [input] ∧ input.previous = .null ∧ CoinbaseLength input.script.length)
    ∨ ∀ input ∈ inputs, input.previous ≠ .null

/-- What a transaction must be like. -/
structure Sound (p : Params) (tx : Tx) : Prop where
  filled : tx.Filled
  fits : tx.WithinWeight p
  inRange : InRange p tx.outputs
  distinct : (tx.inputs.map TxInput.previous).Nodup
  nulls : NullsInPlace tx.inputs

/-- The first thing wrong with a transaction, in the order in which it is looked at. -/
inductive FirstFault (p : Params) (tx : Tx) : TxFault → Prop
  | noInputs (hinputs : tx.inputs = []) : FirstFault p tx .noInputs
  | noOutputs (hinputs : tx.inputs ≠ []) (houtputs : tx.outputs = []) : FirstFault p tx .noOutputs
  | oversize (hfilled : tx.Filled) (hsize : ¬ tx.WithinWeight p) :
      FirstFault p tx (.oversize tx.strippedSize)
  | negativeOutput (hfilled : tx.Filled) (hfits : tx.WithinWeight p) {index : Nat} {o : TxOutput}
      (hfirst : FirstBad p tx.outputs index) (ho : tx.outputs[index]? = some o)
      (hneg : o.value.toInt < 0) : FirstFault p tx (.negativeOutput index o.value)
  | largeOutput (hfilled : tx.Filled) (hfits : tx.WithinWeight p) {index : Nat} {o : TxOutput}
      (hfirst : FirstBad p tx.outputs index) (ho : tx.outputs[index]? = some o)
      (hpos : 0 ≤ o.value.toInt) (hlarge : p.maxMoney.toInt < o.value.toInt) :
      FirstFault p tx (.largeOutput index o.value)
  | largeTotal (hfilled : tx.Filled) (hfits : tx.WithinWeight p) {index : Nat} {o : TxOutput}
      (hfirst : FirstBad p tx.outputs index) (ho : tx.outputs[index]? = some o)
      (hpos : 0 ≤ o.value.toInt) (hsmall : o.value.toInt ≤ p.maxMoney.toInt)
      (htotal : p.maxMoney.toInt < amountOf (tx.outputs.take (index + 1))) :
      FirstFault p tx (.largeTotal p.maxMoney index)
  | spentTwice (hfilled : tx.Filled) (hfits : tx.WithinWeight p) (hrange : InRange p tx.outputs)
      {front rest : List Outpoint} {outpoint : Outpoint}
      (hspends : tx.inputs.map TxInput.previous = front ++ outpoint :: rest)
      (hfront : front.Nodup) (hagain : outpoint ∈ front) : FirstFault p tx (.spentTwice outpoint)
  | coinbaseScript (hfilled : tx.Filled) (hfits : tx.WithinWeight p) (hrange : InRange p tx.outputs)
      {input : TxInput} (hinputs : tx.inputs = [input]) (hnull : input.previous = .null)
      (hlength : ¬ CoinbaseLength input.script.length) :
      FirstFault p tx (.coinbaseScript input.script.length)
  | nullOutpoint (hfilled : tx.Filled) (hfits : tx.WithinWeight p) (hrange : InRange p tx.outputs)
      (hdistinct : (tx.inputs.map TxInput.previous).Nodup) (hmany : tx.inputs.length ≠ 1)
      (hnull : ∃ input ∈ tx.inputs, input.previous = .null) : FirstFault p tx .nullOutpoint

/-! ## §2. Spent outputs -/

/-- **The search finds the first outpoint that was there before**, in the list or in `seen`. -/
theorem repeated?_eq_some_iff {outpoint : Outpoint} :
    ∀ {outpoints : List Outpoint} {seen : Std.HashSet Outpoint},
      repeated? seen outpoints = some outpoint ↔
        ∃ front rest, outpoints = front ++ outpoint :: rest ∧ (∀ o ∈ front, o ∉ seen)
          ∧ front.Nodup ∧ (outpoint ∈ seen ∨ outpoint ∈ front) := by
  intro outpoints
  induction outpoints with
  | nil =>
    intro seen
    constructor
    · intro h
      cases h
    · rintro ⟨front, rest, hsplit, -⟩
      cases front <;> cases hsplit
  | cons first back ih =>
    intro seen
    rw [repeated?]
    by_cases hseen : first ∈ seen
    · rw [if_pos hseen]
      constructor
      · intro h
        cases h
        exact ⟨[], back, rfl, List.forall_mem_nil _, List.nodup_nil, .inl hseen⟩
      · rintro ⟨front, rest, hsplit, hfront, -, -⟩
        cases front with
        | nil =>
          cases hsplit
          rfl
        | cons o front =>
          cases hsplit
          exact absurd hseen (hfront first List.mem_cons_self)
    · rw [if_neg hseen, ih]
      constructor
      · rintro ⟨front, rest, rfl, hfront, hnodup, hagain⟩
        refine ⟨first :: front, rest, rfl, ?_, ?_, ?_⟩
        · refine List.forall_mem_cons.2 ⟨hseen, ?_⟩
          intro o ho hold
          exact hfront o ho (Std.HashSet.mem_insert.2 (.inr hold))
        · refine List.nodup_cons.2 ⟨?_, hnodup⟩
          intro hmem
          exact hfront first hmem (Std.HashSet.mem_insert.2 (.inl (beq_self_eq_true _)))
        · rcases hagain with hold | hmem
          · rcases Std.HashSet.mem_insert.1 hold with heq | hold
            · exact .inr (List.mem_cons.2 (.inl (beq_iff_eq.1 heq).symm))
            · exact .inl hold
          · exact .inr (List.mem_cons_of_mem _ hmem)
      · rintro ⟨front, rest, hsplit, hfront, hnodup, hagain⟩
        cases front with
        | nil =>
          -- the first one cannot be a repetition
          cases hsplit
          exact absurd hagain (by simp [hseen])
        | cons o front =>
          cases hsplit
          obtain ⟨hfirst, hnodup⟩ := List.nodup_cons.1 hnodup
          refine ⟨front, rest, rfl, ?_, hnodup, ?_⟩
          · intro o ho hmem
            rcases Std.HashSet.mem_insert.1 hmem with heq | hold
            · rw [beq_iff_eq] at heq
              exact hfirst (heq ▸ ho)
            · exact hfront o (List.mem_cons_of_mem _ ho) hold
          · rcases hagain with hold | hmem
            · exact .inl (Std.HashSet.mem_insert.2 (.inr hold))
            · rcases List.mem_cons.1 hmem with heq | hmem
              · exact .inl (Std.HashSet.mem_insert.2 (.inl (beq_iff_eq.2 heq.symm)))
              · exact .inr hmem

theorem checkSpends_eq_error_iff {inputs : List TxInput} {fault : TxFault} :
    checkSpends inputs = .error fault ↔
      ∃ front outpoint rest, inputs.map TxInput.previous = front ++ outpoint :: rest
        ∧ front.Nodup ∧ outpoint ∈ front ∧ fault = .spentTwice outpoint := by
  have hsearch : ∀ outpoint, repeated? ∅ (inputs.map TxInput.previous) = some outpoint ↔
      ∃ front rest, inputs.map TxInput.previous = front ++ outpoint :: rest
        ∧ front.Nodup ∧ outpoint ∈ front := by
    intro outpoint
    rw [repeated?_eq_some_iff]
    simp
  unfold checkSpends
  cases hfound : repeated? ∅ (inputs.map TxInput.previous) with
  | none =>
    constructor
    · intro h
      cases h
    · rintro ⟨front, outpoint, rest, hsplit, hfront, hagain, -⟩
      cases hfound.symm.trans ((hsearch outpoint).2 ⟨front, rest, hsplit, hfront, hagain⟩)
  | some outpoint =>
    show Except.error _ = _ ↔ _
    rw [Except.error_eq_error_iff]
    constructor
    · rintro rfl
      obtain ⟨front, rest, hsplit, hfront, hagain⟩ := (hsearch outpoint).1 hfound
      exact ⟨front, outpoint, rest, hsplit, hfront, hagain, rfl⟩
    · rintro ⟨front, outpoint', rest, hsplit, hfront, hagain, rfl⟩
      cases hfound.symm.trans ((hsearch outpoint').2 ⟨front, rest, hsplit, hfront, hagain⟩)
      rfl

/-! ## §3. The null outpoint -/

/-- The check of the null outpoint is one test for a single input and another one for many. -/
theorem checkNulls_singleton (input : TxInput) :
    checkNulls [input] =
      if input.previous = .null ∧ ¬ CoinbaseLength input.script.length then
        .error (.coinbaseScript input.script.length) else .ok () := by
  have htest : (input.previous.isNull
        && (input.script.length < 2 || 100 < input.script.length)) = true
      ↔ input.previous = .null ∧ ¬ CoinbaseLength input.script.length := by
    rw [Bool.and_eq_true, Bool.or_eq_true, Outpoint.isNull, CoinbaseLength]
    simp only [decide_eq_true_iff]
    refine and_congr_right fun _ => ?_
    omega
  rw [checkNulls]
  by_cases hbad : input.previous = .null ∧ ¬ CoinbaseLength input.script.length
  · rw [if_pos hbad, if_pos (htest.2 hbad)]
  · rw [if_neg hbad, if_neg (mt htest.1 hbad)]

theorem checkNulls_many {inputs : List TxInput} (hmany : inputs.length ≠ 1) :
    checkNulls inputs =
      if ∃ input ∈ inputs, input.previous = .null then .error .nullOutpoint else .ok () := by
  have htest : (inputs.any fun input => input.previous.isNull) = true
      ↔ ∃ input ∈ inputs, input.previous = .null := by
    simp [Outpoint.isNull]
  have hcheck : checkNulls inputs
      = if inputs.any fun input => input.previous.isNull then .error .nullOutpoint
        else .ok () := by
    rcases inputs with _ | ⟨first, _ | ⟨second, rest⟩⟩
    · rfl
    · exact absurd rfl hmany
    · rfl
  rw [hcheck]
  by_cases hnull : ∃ input ∈ inputs, input.previous = .null
  · rw [if_pos hnull, if_pos (htest.2 hnull)]
  · rw [if_neg hnull, if_neg (mt htest.1 hnull)]

theorem checkNulls_eq_ok_iff {inputs : List TxInput} :
    checkNulls inputs = .ok () ↔ NullsInPlace inputs := by
  unfold NullsInPlace
  by_cases hone : inputs.length = 1
  · obtain ⟨input, rfl⟩ := List.length_eq_one_iff.1 hone
    rw [checkNulls_singleton, Except.refuse_eq_ok_iff, and_iff_left rfl]
    simp only [List.cons.injEq, and_true, List.mem_singleton, forall_eq, exists_eq_left']
    by_cases hnull : input.previous = .null <;> simp [hnull]
  · rw [checkNulls_many hone, Except.refuse_eq_ok_iff, and_iff_left rfl]
    constructor
    · intro h
      exact .inr fun input hinput hnull => h ⟨input, hinput, hnull⟩
    · rintro (⟨input, rfl, -⟩ | hnone) ⟨input', hinput, hnull⟩
      · exact hone rfl
      · exact hnone input' hinput hnull

theorem checkNulls_eq_error_iff {inputs : List TxInput} {fault : TxFault} :
    checkNulls inputs = .error fault ↔
      (∃ input, inputs = [input] ∧ input.previous = .null
        ∧ ¬ CoinbaseLength input.script.length ∧ fault = .coinbaseScript input.script.length)
      ∨ inputs.length ≠ 1 ∧ (∃ input ∈ inputs, input.previous = .null)
        ∧ fault = .nullOutpoint := by
  by_cases hone : inputs.length = 1
  · obtain ⟨input, rfl⟩ := List.length_eq_one_iff.1 hone
    rw [checkNulls_singleton, Except.refuse_eq_error_iff]
    simp [and_assoc]
  · rw [checkNulls_many hone, Except.refuse_eq_error_iff]
    constructor
    · rintro (⟨hnull, hfault⟩ | ⟨-, h⟩)
      · exact .inr ⟨hone, hnull, hfault⟩
      · cases h
    · rintro (⟨input, rfl, -⟩ | ⟨-, hnull, hfault⟩)
      · exact absurd rfl hone
      · exact .inl ⟨hnull, hfault⟩

/-! ## §4. All checks -/

variable {p : Params} {tx : Tx}

/-- A bad output is negative, or too large, or the one that makes the sum too large. -/
theorem firstFault_of_firstBad (hfilled : tx.Filled) (hfits : tx.WithinWeight p) {index : Nat}
    {o : TxOutput} (hfirst : FirstBad p tx.outputs index) (ho : tx.outputs[index]? = some o) :
    FirstFault p tx (outputFault p index o) := by
  unfold outputFault
  split
  · next hneg =>
    rw [Int64.lt_iff_toInt_lt, Int64.toInt_zero] at hneg
    exact .negativeOutput hfilled hfits hfirst ho hneg
  · next hpos =>
    rw [Int64.lt_iff_toInt_lt, Int64.toInt_zero, Int.not_lt] at hpos
    split
    · next hlarge => exact .largeOutput hfilled hfits hfirst ho hpos (Int64.lt_iff_toInt_lt.1 hlarge)
    · next hsmall =>
      rw [Int64.lt_iff_toInt_lt, Int.not_lt] at hsmall
      obtain ⟨o', ho', hbad⟩ := hfirst.1
      cases ho.symm.trans ho'
      exact .largeTotal hfilled hfits hfirst ho hpos hsmall (by omega)

theorem fits_iff : tx.WithinWeight p ↔ ¬ p.overweight tx.strippedSize = true := by
  rw [Bool.not_eq_true, Params.overweight_eq_false_iff]
  rfl

/-- **What passes is what is sound.** -/
theorem check_eq_ok_iff_sound : tx.check p = .ok () ↔ Sound p tx := by
  rw [check_eq_ok_iff, checkOutputs_eq_ok_iff, checkNulls_eq_ok_iff, Params.overweight_eq_false_iff]
  constructor
  · rintro ⟨hinputs, houtputs, hfits, hgood, hdistinct, hnulls⟩
    exact ⟨⟨hinputs, houtputs⟩, hfits, (inRange_iff houtputs).2 hgood, hdistinct, hnulls⟩
  · rintro ⟨⟨hinputs, houtputs⟩, hfits, hrange, hdistinct, hnulls⟩
    exact ⟨hinputs, houtputs, hfits, (inRange_iff houtputs).1 hrange, hdistinct, hnulls⟩

/-- What is reported of a transaction that is neither empty nor too large. -/
theorem check_eq_error_iff_of_fits (hfilled : tx.Filled) (hfits : tx.WithinWeight p)
    {fault : TxFault} :
    tx.check p = .error fault ↔
      (∃ index o, FirstBad p tx.outputs index ∧ tx.outputs[index]? = some o
        ∧ fault = outputFault p index o)
      ∨ InRange p tx.outputs ∧
        ((∃ front outpoint rest, tx.inputs.map TxInput.previous = front ++ outpoint :: rest
          ∧ front.Nodup ∧ outpoint ∈ front ∧ fault = .spentTwice outpoint)
        ∨ (tx.inputs.map TxInput.previous).Nodup ∧
          ((∃ input, tx.inputs = [input] ∧ input.previous = .null
            ∧ ¬ CoinbaseLength input.script.length ∧ fault = .coinbaseScript input.script.length)
          ∨ tx.inputs.length ≠ 1 ∧ (∃ input ∈ tx.inputs, input.previous = .null)
            ∧ fault = .nullOutpoint)) := by
  rw [check_eq, if_neg hfilled.inputs, if_neg hfilled.outputs, if_neg (fits_iff.1 hfits),
    Except.seq_eq_error_iff, Except.seq_eq_error_iff, checkOutputs_eq_error_iff,
    checkOutputs_eq_ok_iff, checkSpends_eq_error_iff, checkSpends_eq_ok_iff,
    checkNulls_eq_error_iff, inRange_iff hfilled.outputs]

theorem firstFault_of_error {fault : TxFault} (h : tx.check p = .error fault) :
    FirstFault p tx fault := by
  by_cases hinputs : tx.inputs = []
  · rw [check_eq, if_pos hinputs] at h
    cases h
    exact .noInputs hinputs
  by_cases houtputs : tx.outputs = []
  · rw [check_eq, if_neg hinputs, if_pos houtputs] at h
    cases h
    exact .noOutputs hinputs houtputs
  have hfilled : tx.Filled := ⟨hinputs, houtputs⟩
  by_cases hfits : tx.WithinWeight p
  · rcases (check_eq_error_iff_of_fits hfilled hfits).1 h with
      ⟨index, o, hfirst, ho, rfl⟩ | ⟨hrange, h⟩
    · exact firstFault_of_firstBad hfilled hfits hfirst ho
    rcases h with ⟨front, outpoint, rest, hspends, hfront, hagain, rfl⟩ | ⟨hdistinct, h⟩
    · exact .spentTwice hfilled hfits hrange hspends hfront hagain
    rcases h with ⟨input, hinputs, hnull, hlength, rfl⟩ | ⟨hmany, hnull, rfl⟩
    · exact .coinbaseScript hfilled hfits hrange hinputs hnull hlength
    · exact .nullOutpoint hfilled hfits hrange hdistinct hmany hnull
  · rw [check_eq, if_neg hinputs, if_neg houtputs, if_pos (not_not.1 (mt fits_iff.2 hfits))] at h
    cases h
    exact .oversize hfilled hfits

/-- **What is reported is the first fault.** -/
theorem check_eq_error_iff {fault : TxFault} :
    tx.check p = .error fault ↔ FirstFault p tx fault := by
  refine ⟨firstFault_of_error, fun h => ?_⟩
  cases h with
  | noInputs hinputs => rw [check_eq, if_pos hinputs]
  | noOutputs hinputs houtputs => rw [check_eq, if_neg hinputs, if_pos houtputs]
  | oversize hfilled hsize =>
    rw [check_eq, if_neg hfilled.inputs, if_neg hfilled.outputs,
      if_pos (not_not.1 (mt fits_iff.2 hsize))]
  | negativeOutput hfilled hfits hfirst ho hneg =>
    refine (check_eq_error_iff_of_fits hfilled hfits).2 (.inl ⟨_, _, hfirst, ho, ?_⟩)
    exact (if_pos (Int64.lt_iff_toInt_lt.2 hneg)).symm
  | largeOutput hfilled hfits hfirst ho hpos hlarge =>
    refine (check_eq_error_iff_of_fits hfilled hfits).2 (.inl ⟨_, _, hfirst, ho, ?_⟩)
    rw [outputFault, if_neg, if_pos (Int64.lt_iff_toInt_lt.2 hlarge)]
    exact mt Int64.lt_iff_toInt_lt.1 (Int.not_lt.2 hpos)
  | largeTotal hfilled hfits hfirst ho hpos hsmall htotal =>
    refine (check_eq_error_iff_of_fits hfilled hfits).2 (.inl ⟨_, _, hfirst, ho, ?_⟩)
    rw [outputFault, if_neg, if_neg]
    · exact mt Int64.lt_iff_toInt_lt.1 (Int.not_lt.2 hsmall)
    · exact mt Int64.lt_iff_toInt_lt.1 (Int.not_lt.2 hpos)
  | spentTwice hfilled hfits hrange hspends hfront hagain =>
    refine (check_eq_error_iff_of_fits hfilled hfits).2 (.inr ⟨hrange, ?_⟩)
    exact .inl ⟨_, _, _, hspends, hfront, hagain, rfl⟩
  | coinbaseScript hfilled hfits hrange hinputs hnull hlength =>
    refine (check_eq_error_iff_of_fits hfilled hfits).2 (.inr ⟨hrange, .inr ⟨?_, ?_⟩⟩)
    · rw [hinputs]
      exact List.nodup_singleton _
    · exact .inl ⟨_, hinputs, hnull, hlength, rfl⟩
  | nullOutpoint hfilled hfits hrange hdistinct hmany hnull =>
    refine (check_eq_error_iff_of_fits hfilled hfits).2 (.inr ⟨hrange, .inr ⟨hdistinct, ?_⟩⟩)
    exact .inr ⟨hmany, hnull, rfl⟩

/-- Amounts whose sum is an amount are added up exactly. -/
theorem totalOutput?_of_inRange (h : InRange p tx.outputs) :
    ∃ total : Int64, tx.totalOutput? = some total ∧ total.toInt = amountOf tx.outputs := by
  have hmax := p.maxMoney.toInt_le
  have htotal := h.total
  obtain ⟨total, hexact, hfold⟩ := foldlM_addAmounts? tx.outputs 0 (Int.le_refl 0)
    (fun o ho => (h.values o ho).1) (by
      rw [Int64.toInt_zero]
      omega)
  refine ⟨total, hfold, ?_⟩
  rw [hexact, Int64.toInt_zero, Int.zero_add]

/-- The reasons that the checks give, in the order of the checks. -/
def reasons : List String :=
  ["bad-txns-vin-empty", "bad-txns-vout-empty", "bad-txns-oversize", "bad-txns-vout-negative",
    "bad-txns-vout-toolarge", "bad-txns-txouttotal-toolarge", "bad-txns-inputs-duplicate",
    "bad-cb-length", "bad-txns-prevout-null"]

/-- A fault is reported under the reason of its own check. -/
theorem reason_of_fault (fault : TxFault) :
    reasons[fault.ctorIdx]? = some fault.rejection.reason
      ∧ fault.rejection.category = .consensus := by
  cases fault <;> exact ⟨rfl, rfl⟩

/-- **What the checks make of every transaction.**  It passes exactly if it is sound, and otherwise
its first fault is reported, under the reason of the check that failed, which no other check gives.
As long as nothing is wrong with the outputs gone through, the running sum is their sum as integers,
so it never wraps; and the total of a transaction that passes is that sum. -/
theorem check_exact (p : Params) (tx : Tx) :
    (tx.check p = .ok () ↔ Sound p tx)
      ∧ (∀ fault, tx.check p = .error fault ↔ FirstFault p tx fault)
      ∧ (reasons.Nodup ∧ ∀ fault : TxFault, reasons[fault.ctorIdx]? = some fault.rejection.reason
          ∧ fault.rejection.category = .consensus)
      ∧ (∀ front rest, tx.outputs = front ++ rest →
          (∀ i < front.length, ¬ BadAt p tx.outputs i) →
          ∃ total : Int64, total.toInt = amountOf front ∧
            checkOutputsFrom p 0 0 tx.outputs = checkOutputsFrom p front.length total rest)
      ∧ (tx.check p = .ok () →
          ∃ total : Int64, tx.totalOutput? = some total ∧ total.toInt = amountOf tx.outputs) := by
  refine ⟨check_eq_ok_iff_sound, fun _ => check_eq_error_iff, ⟨by decide, reason_of_fault⟩, ?_, ?_⟩
  · intro front rest hsplit hgood
    rw [hsplit] at hgood ⊢
    obtain ⟨total, hexact, -, hcheck⟩ := checkOutputsFrom_front front rest hgood
    exact ⟨total, hexact, hcheck⟩
  · intro hok
    exact totalOutput?_of_inRange (check_eq_ok_iff_sound.1 hok).inRange

/-- A transaction that creates in two outputs all the money that there may be. -/
def windfall : Tx where
  version := 2
  inputs := [⟨⟨1, 0⟩, [], 0xffffffff, .none⟩, ⟨⟨1, 1⟩, [], 0xffffffff, .none⟩]
  outputs := [⟨2099999999999999, [0x51]⟩, ⟨1, []⟩]
  lockTime := 0
  txid := 7
  wtxid := 7

/-- It passes, and its total is the limit itself. -/
theorem windfall_passes :
    windfall.check .regtest = .ok ()
      ∧ ∃ total : Int64, windfall.totalOutput? = some total
          ∧ total.toInt = Params.regtest.maxMoney.toInt := by
  have hsound : Sound .regtest windfall := by
    refine ⟨⟨by decide, by decide⟩, ?_, ⟨by decide, by decide⟩, by decide, .inr (by decide)⟩
    unfold WithinWeight
    decide +kernel
  have hok := (check_exact .regtest windfall).1.2 hsound
  obtain ⟨total, htotal, hexact⟩ := (check_exact .regtest windfall).2.2.2.2 hok
  exact ⟨hok, total, htotal, hexact.trans (by decide)⟩

end HeaderPeer.Tx
