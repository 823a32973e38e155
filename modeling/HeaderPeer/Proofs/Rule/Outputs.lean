/-
  HeaderPeer.Proofs.Rule.Outputs — the outputs of a transaction, added up in 64 bits.

  The check of the outputs goes through them once, with a running sum, and stops at the first output
  that is negative, too large or brings the sum above the limit.  Values that are not negative can
  only make the sum grow, so to look at every partial sum is to look at the whole one.  What is
  compared below is the sum of integers, which has no limit of its own; the running sum never
  differs from it.

  Main statements:
    * `addAmounts?_eq_some_iff` — amounts are added exactly or not at all.
    * `checkOutputsFrom_front` — behind outputs with nothing wrong the running sum is exact.
    * `checkOutputs_eq_ok_iff`, `checkOutputs_eq_error_iff` — what passes, and what is reported.
    * `inRange_iff` — nothing is wrong with any output exactly if the values and their sum are amounts.
-/
import HeaderPeer.Rule.Tx
import Mathlib.Algebra.Ring.Int.Defs
import Mathlib.Data.List.Basic
import Mathlib.Data.List.Induction
import Mathlib.Data.Nat.Find
import Mathlib.Order.Basic

namespace HeaderPeer

/-! ## §1. Amounts -/

/-- **Amounts are added exactly or not at all.** -/
theorem addAmounts?_eq_some_iff {a b sum : Int64} :
    addAmounts? a b = some sum ↔ sum.toInt = a.toInt + b.toInt := by
  have hlow := sum.le_toInt
  have hhigh := sum.toInt_le
  rw [Int64.toInt_maxValue] at hhigh
  unfold addAmounts?
  simp only [Int64.toInt_maxValue, Int64.toInt_minValue]
  constructor
  · intro h
    split at h
    · next hfits =>
      cases h
      exact Int64.toInt_ofInt_of_le hfits.1 (by omega)
    · cases h
  · intro h
    rw [if_pos (by omega), ← h, Int64.ofInt_toInt]

/-- A sum that is not too large exists. -/
theorem exists_addAmounts? {a b : Int64} (ha : 0 ≤ a.toInt) (hb : 0 ≤ b.toInt)
    (hsum : a.toInt + b.toInt ≤ Int64.maxValue.toInt) :
    ∃ sum : Int64, addAmounts? a b = some sum ∧ sum.toInt = a.toInt + b.toInt := by
  rw [Int64.toInt_maxValue] at hsum
  have hexact : (Int64.ofInt (a.toInt + b.toInt)).toInt = a.toInt + b.toInt :=
    Int64.toInt_ofInt_of_le (by omega) (by omega)
  exact ⟨_, addAmounts?_eq_some_iff.2 hexact, hexact⟩

theorem Params.moneyRange_iff {p : Params} {value : Int64} :
    p.moneyRange value = true ↔ 0 ≤ value.toInt ∧ value.toInt ≤ p.maxMoney.toInt := by
  rw [moneyRange, Bool.and_eq_true, decide_eq_true_iff, decide_eq_true_iff,
    Int64.le_iff_toInt_le, Int64.le_iff_toInt_le, Int64.toInt_zero]

namespace Tx

/-- The sum of the values as integers, whatever its size. -/
def amountOf (outputs : List TxOutput) : Int := (outputs.map fun o => o.value.toInt).sum

theorem amountOf_cons (o : TxOutput) (rest : List TxOutput) :
    amountOf (o :: rest) = o.value.toInt + amountOf rest := rfl

theorem amountOf_append (xs ys : List TxOutput) :
    amountOf (xs ++ ys) = amountOf xs + amountOf ys := by
  rw [amountOf, List.map_append, List.sum_append]
  rfl

theorem amountOf_concat (front : List TxOutput) (o : TxOutput) :
    amountOf (front ++ [o]) = amountOf front + o.value.toInt := by
  rw [amountOf_append, amountOf_cons]
  exact congrArg (amountOf front + ·) (Int.add_zero _)

theorem amountOf_nonneg {outputs : List TxOutput} (h : ∀ o ∈ outputs, 0 ≤ o.value.toInt) :
    0 ≤ amountOf outputs := by
  induction outputs with
  | nil => exact Int.le_refl 0
  | cons o rest ih =>
    obtain ⟨ho, hrest⟩ := List.forall_mem_cons.1 h
    have hsum := ih hrest
    rw [amountOf_cons]
    omega

/-- Values that are not negative: no part of them sums up to more than all. -/
theorem amountOf_take_le {outputs : List TxOutput} (h : ∀ o ∈ outputs, 0 ≤ o.value.toInt)
    (n : Nat) : amountOf (outputs.take n) ≤ amountOf outputs := by
  have hdrop : 0 ≤ amountOf (outputs.drop n) :=
    amountOf_nonneg fun o ho => h o (List.mem_of_mem_drop ho)
  have hsplit := amountOf_append (outputs.take n) (outputs.drop n)
  rw [List.take_append_drop] at hsplit
  omega

/-- Values that are not negative are added up exactly if their sum fits an amount. -/
theorem foldlM_addAmounts? :
    ∀ (outputs : List TxOutput) (start : Int64), 0 ≤ start.toInt →
      (∀ o ∈ outputs, 0 ≤ o.value.toInt) →
      start.toInt + amountOf outputs ≤ Int64.maxValue.toInt →
      ∃ total : Int64, total.toInt = start.toInt + amountOf outputs ∧
        outputs.foldlM (fun total output => addAmounts? total output.value) start = some total := by
  intro outputs
  induction outputs with
  | nil =>
    intro start _ _ _
    exact ⟨start, (Int.add_zero _).symm, rfl⟩
  | cons o rest ih =>
    intro start hstart hvalues hsum
    obtain ⟨ho, hrest⟩ := List.forall_mem_cons.1 hvalues
    have hback := amountOf_nonneg hrest
    rw [amountOf_cons] at hsum
    obtain ⟨next, hnext, hexact⟩ := exists_addAmounts? hstart ho (by omega)
    obtain ⟨total, htotal, hfold⟩ := ih next (by omega) hrest (by omega)
    refine ⟨total, ?_, ?_⟩
    · rw [htotal, hexact, amountOf_cons]
      omega
    · show (addAmounts? start o.value).bind _ = some total
      rw [hnext]
      exact hfold

/-! ## §2. What is wrong with an output -/

/-- The value at `index` is negative or too large, or makes the sum of the values up to it too
large. -/
def BadAt (p : Params) (outputs : List TxOutput) (index : Nat) : Prop :=
  ∃ o, outputs[index]? = some o ∧
    (o.value.toInt < 0 ∨ p.maxMoney.toInt < o.value.toInt
      ∨ p.maxMoney.toInt < amountOf (outputs.take (index + 1)))

/-- The first output with which something is wrong. -/
def FirstBad (p : Params) (outputs : List TxOutput) (index : Nat) : Prop :=
  BadAt p outputs index ∧ ∀ i < index, ¬ BadAt p outputs i

/-- The values and their sum are amounts. -/
structure InRange (p : Params) (outputs : List TxOutput) : Prop where
  values : ∀ o ∈ outputs, 0 ≤ o.value.toInt ∧ o.value.toInt ≤ p.maxMoney.toInt
  total : amountOf outputs ≤ p.maxMoney.toInt

/-- What is said of an output with which something is wrong. -/
def outputFault (p : Params) (index : Nat) (o : TxOutput) : TxFault :=
  if o.value < 0 then .negativeOutput index o.value
  else if p.maxMoney < o.value then .largeOutput index o.value
  else .largeTotal p.maxMoney index

variable {p : Params} {outputs : List TxOutput}

theorem badAt_iff {front rest : List TxOutput} {o : TxOutput} :
    BadAt p (front ++ o :: rest) front.length ↔
      o.value.toInt < 0 ∨ p.maxMoney.toInt < o.value.toInt
        ∨ p.maxMoney.toInt < amountOf front + o.value.toInt := by
  have hat : (front ++ o :: rest)[front.length]? = some o := by
    rw [List.getElem?_append_right (Nat.le_refl _), Nat.sub_self]
    rfl
  have htake : amountOf ((front ++ o :: rest).take (front.length + 1))
      = amountOf front + o.value.toInt := by
    rw [List.take_length_add_append]
    exact amountOf_concat front o
  unfold BadAt
  rw [htake, hat]
  simp

theorem FirstBad.unique {i j : Nat} (hi : FirstBad p outputs i) (hj : FirstBad p outputs j) :
    i = j := by
  rcases Nat.lt_trichotomy i j with hlt | heq | hgt
  · exact absurd hi.1 (hj.2 i hlt)
  · exact heq
  · exact absurd hj.1 (hi.2 j hgt)

/-- Where something is wrong, there is a first such place. -/
theorem exists_firstBad (h : ∃ i, BadAt p outputs i) : ∃ i, FirstBad p outputs i := by
  classical
  exact ⟨Nat.find h, Nat.find_spec h, fun _ hi => Nat.find_min h hi⟩

/-- **Nothing is wrong with any output exactly if the values and their sum are amounts.**  The sum
of all is the sum up to the last output, and no sum before that is larger. -/
theorem inRange_iff (hsome : outputs ≠ []) :
    InRange p outputs ↔ ∀ i, ¬ BadAt p outputs i := by
  constructor
  · rintro ⟨hvalues, htotal⟩ i ⟨o, ho, hbad⟩
    obtain ⟨hpos, hsmall⟩ := hvalues o (List.mem_of_getElem? ho)
    have hpart := amountOf_take_le (fun o ho => (hvalues o ho).1) (i + 1)
    omega
  · intro h
    refine ⟨?_, ?_⟩
    · intro o ho
      obtain ⟨i, hi⟩ := List.mem_iff_getElem?.1 ho
      by_contra hbad
      exact h i ⟨o, hi, by omega⟩
    · by_contra hlarge
      obtain ⟨front, last, rfl⟩ := (List.eq_nil_or_concat' outputs).resolve_left hsome
      refine h front.length (badAt_iff.2 (.inr (.inr ?_)))
      rw [amountOf_concat] at hlarge
      exact Int.not_le.1 hlarge

/-! ## §3. The check of the outputs -/

/-- The check goes past an output with which nothing is wrong, and adds it to the sum. -/
theorem checkOutputsFrom_of_good (index : Nat) {total : Int64} (o : TxOutput)
    (rest : List TxOutput) (htotal : 0 ≤ total.toInt) (hpos : 0 ≤ o.value.toInt)
    (hsmall : o.value.toInt ≤ p.maxMoney.toInt)
    (hsum : total.toInt + o.value.toInt ≤ p.maxMoney.toInt) :
    ∃ sum : Int64, sum.toInt = total.toInt + o.value.toInt ∧
      checkOutputsFrom p index total (o :: rest) = checkOutputsFrom p (index + 1) sum rest := by
  have hmax := p.maxMoney.toInt_le
  obtain ⟨sum, hadd, hexact⟩ := exists_addAmounts? htotal hpos (by omega)
  have hrange : p.moneyRange sum = true := Params.moneyRange_iff.2 (by omega)
  refine ⟨sum, hexact, ?_⟩
  rw [checkOutputsFrom, if_neg, if_neg, hadd, Option.filter_some, if_pos hrange]
  · rw [Int64.lt_iff_toInt_lt]
    omega
  · rw [Int64.lt_iff_toInt_lt, Int64.toInt_zero]
    omega

/-- The check ends at an output with which something is wrong. -/
theorem checkOutputsFrom_of_bad (index : Nat) {total : Int64} {o : TxOutput}
    (rest : List TxOutput)
    (hbad : o.value.toInt < 0 ∨ p.maxMoney.toInt < o.value.toInt
      ∨ p.maxMoney.toInt < total.toInt + o.value.toInt) :
    checkOutputsFrom p index total (o :: rest) = .error (outputFault p index o) := by
  rw [checkOutputsFrom, outputFault]
  by_cases hneg : o.value < 0
  · rw [if_pos hneg, if_pos hneg]
  · by_cases hlarge : p.maxMoney < o.value
    · rw [if_neg hneg, if_neg hneg, if_pos hlarge, if_pos hlarge]
    · rw [if_neg hneg, if_neg hneg, if_neg hlarge, if_neg hlarge]
      rw [Int64.lt_iff_toInt_lt, Int64.toInt_zero] at hneg
      rw [Int64.lt_iff_toInt_lt] at hlarge
      -- the exact sum is too large, so it is no amount or cannot be written at all
      have hnone : (addAmounts? total o.value).filter p.moneyRange = none := by
        rw [Option.filter_eq_none_iff]
        intro sum hadd hrange
        have hexact := addAmounts?_eq_some_iff.1 hadd
        have hle := (Params.moneyRange_iff.1 hrange).2
        omega
      rw [hnone]

/-- **Behind outputs with nothing wrong the running sum is exact.**  The induction adds the outputs
at the end, one step of the check for each. -/
theorem checkOutputsFrom_front (front : List TxOutput) :
    ∀ (rest : List TxOutput), (∀ i < front.length, ¬ BadAt p (front ++ rest) i) →
      ∃ total : Int64, total.toInt = amountOf front ∧ 0 ≤ total.toInt ∧
        checkOutputsFrom p 0 0 (front ++ rest) = checkOutputsFrom p front.length total rest := by
  induction front using List.reverseRecOn with
  | nil =>
    intro rest _
    exact ⟨0, rfl, Int.le_refl 0, rfl⟩
  | append_singleton front o ih =>
    intro rest hgood
    rw [List.append_assoc, List.singleton_append] at hgood ⊢
    rw [List.length_append, List.length_singleton] at hgood ⊢
    obtain ⟨total, htotal, hpos, hcheck⟩ := ih _ fun i hi => hgood i (by omega)
    have ho := hgood front.length (Nat.lt_succ_self _)
    rw [badAt_iff] at ho
    obtain ⟨sum, hsum, hstep⟩ := checkOutputsFrom_of_good (p := p) front.length o rest hpos
      (by omega) (by omega) (by omega)
    refine ⟨sum, ?_, by omega, hcheck.trans hstep⟩
    rw [amountOf_concat, hsum, htotal]

theorem checkOutputs_of_good (h : ∀ i, ¬ BadAt p outputs i) :
    checkOutputsFrom p 0 0 outputs = .ok () := by
  obtain ⟨total, -, -, hcheck⟩ := checkOutputsFrom_front (p := p) outputs []
    fun i _ => by
      rw [List.append_nil]
      exact h i
  rw [List.append_nil] at hcheck
  exact hcheck

theorem checkOutputs_of_firstBad {index : Nat} (h : FirstBad p outputs index) :
    ∃ o, outputs[index]? = some o ∧
      checkOutputsFrom p 0 0 outputs = .error (outputFault p index o) := by
  obtain ⟨⟨o, ho, hbad⟩, hfirst⟩ := h
  refine ⟨o, ho, ?_⟩
  obtain ⟨hlt, hat⟩ := List.getElem?_eq_some_iff.1 ho
  -- the outputs are those before the first bad one, that one and some others
  have hsplit : outputs = outputs.take index ++ o :: outputs.drop (index + 1) := by
    rw [← hat, ← List.drop_eq_getElem_cons hlt, List.take_append_drop]
  have hlength : (outputs.take index).length = index := List.length_take_of_le (Nat.le_of_lt hlt)
  obtain ⟨total, htotal, -, hcheck⟩ := checkOutputsFrom_front (p := p) (outputs.take index)
    (o :: outputs.drop (index + 1)) (by
      intro i hi
      rw [← hsplit]
      exact hfirst i (by omega))
  rw [← hsplit, hlength] at hcheck
  rw [hcheck]
  refine checkOutputsFrom_of_bad index _ ?_
  rw [htotal]
  rwa [List.take_add_one, ho, Option.toList_some, amountOf_concat] at hbad

/-- **The outputs pass exactly if nothing is wrong with any of them.** -/
theorem checkOutputs_eq_ok_iff :
    checkOutputsFrom p 0 0 outputs = .ok () ↔ ∀ i, ¬ BadAt p outputs i := by
  refine ⟨fun hok => ?_, checkOutputs_of_good⟩
  by_contra hsome
  obtain ⟨i, hi⟩ := exists_firstBad (not_forall_not.1 hsome)
  obtain ⟨o, -, herror⟩ := checkOutputs_of_firstBad hi
  cases hok.symm.trans herror

/-- **What is reported is the first output with which something is wrong.** -/
theorem checkOutputs_eq_error_iff {fault : TxFault} :
    checkOutputsFrom p 0 0 outputs = .error fault ↔
      ∃ index o, FirstBad p outputs index ∧ outputs[index]? = some o
        ∧ fault = outputFault p index o := by
  constructor
  · intro herror
    have hsome : ∃ i, BadAt p outputs i := by
      by_contra hnone
      cases (checkOutputs_of_good (not_exists.1 hnone)).symm.trans herror
    obtain ⟨index, hfirst⟩ := exists_firstBad hsome
    obtain ⟨o, ho, hfault⟩ := checkOutputs_of_firstBad hfirst
    exact ⟨index, o, hfirst, ho, Except.error.inj (herror.symm.trans hfault)⟩
  · rintro ⟨index, o, hfirst, ho, rfl⟩
    obtain ⟨o', ho', herror⟩ := checkOutputs_of_firstBad hfirst
    cases ho.symm.trans ho'
    exact herror

end Tx

end HeaderPeer
