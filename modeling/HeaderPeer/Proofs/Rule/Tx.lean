/-
  HeaderPeer.Proofs.Rule.Tx — what the checks of a transaction say, one by one.

  A transaction that passes spends no output twice.  It spends the null outpoint once if it is a
  coinbase, and never otherwise: a second input, with which it would not be taken for a coinbase any
  more, does not hide the first one.

  Main statements:
    * `repeated?_eq_none_iff` — the search for an outpoint that occurs twice.
    * `check_eq_ok_iff` — the checks that a transaction passes.
    * `nulls_of_checkNulls` — how often a transaction spends the null outpoint.
-/
import HeaderPeer.Proofs.Rule.Checks
import HeaderPeer.Rule.Tx
import Mathlib.Algebra.Group.Nat.Defs
import Mathlib.Data.List.Nodup

namespace HeaderPeer

/-- The limit on weights, with the weight written out. -/
theorem Params.overweight_eq_false_iff {p : Params} {n : Nat} :
    p.overweight n = false
      ↔ min (n * p.witnessScale.toNat) (2 ^ 64 - 1) ≤ p.maxBlockWeight.toNat := by
  rw [overweight, decide_eq_false_iff_not, Nat.not_lt]
  rfl

namespace Tx

/-! ## §1. Spent outputs -/

/-- **Nothing is found exactly if nothing occurs twice**, in the list or in what came before. -/
theorem repeated?_eq_none_iff {outpoints : List Outpoint} {seen : Std.HashSet Outpoint} :
    repeated? seen outpoints = none ↔ (∀ o ∈ outpoints, o ∉ seen) ∧ outpoints.Nodup := by
  induction outpoints generalizing seen with
  | nil => exact ⟨fun _ => ⟨fun _ h => (nomatch h), List.nodup_nil⟩, fun _ => rfl⟩
  | cons outpoint rest ih =>
    rw [repeated?, List.forall_mem_cons, List.nodup_cons]
    by_cases hseen : outpoint ∈ seen
    · rw [if_pos hseen]
      exact ⟨fun h => (nomatch h), fun h => absurd hseen (h.1.1)⟩
    · rw [if_neg hseen, ih]
      constructor
      · rintro ⟨hrest, hnodup⟩
        refine ⟨⟨hseen, ?_⟩, ?_, hnodup⟩
        · intro o ho hold
          exact hrest o ho (Std.HashSet.mem_insert.2 (.inr hold))
        · intro hmem
          exact hrest outpoint hmem (Std.HashSet.mem_insert.2 (.inl (beq_self_eq_true _)))
      · rintro ⟨⟨-, hrest⟩, hfirst, hnodup⟩
        refine ⟨?_, hnodup⟩
        intro o ho hmem
        rcases Std.HashSet.mem_insert.1 hmem with heq | hold
        · rw [beq_iff_eq] at heq
          exact hfirst (heq ▸ ho)
        · exact hrest o ho hold

theorem checkSpends_eq_ok_iff {inputs : List TxInput} :
    checkSpends inputs = .ok () ↔ (inputs.map TxInput.previous).Nodup := by
  have hnone : repeated? ∅ (inputs.map TxInput.previous) = none
      ↔ (inputs.map TxInput.previous).Nodup := by
    rw [repeated?_eq_none_iff]
    exact and_iff_right fun o _ => Std.HashSet.not_mem_empty
  rw [← hnone]
  unfold checkSpends
  cases repeated? ∅ (inputs.map TxInput.previous) with
  | none => exact ⟨fun _ => rfl, fun _ => rfl⟩
  | some o => exact ⟨fun h => (nomatch h), fun h => (nomatch h)⟩

/-! ## §2. All checks -/

/-- The checks in their order; the first that fails decides. -/
theorem check_eq (p : Params) (tx : Tx) :
    tx.check p =
      if tx.inputs = [] then .error .noInputs
      else if tx.outputs = [] then .error .noOutputs
      else if p.overweight tx.strippedSize then .error (.oversize tx.strippedSize)
      else (do
        checkOutputsFrom p 0 0 tx.outputs
        checkSpends tx.inputs
        checkNulls tx.inputs) := by
  simp only [check, List.isEmpty_iff]
  by_cases hinputs : tx.inputs = []
  · rw [if_pos hinputs, if_pos hinputs]
    rfl
  · rw [if_neg hinputs, if_neg hinputs]
    by_cases houtputs : tx.outputs = []
    · rw [if_pos houtputs, if_pos houtputs]
      rfl
    · rw [if_neg houtputs, if_neg houtputs]
      split <;> rfl

/-- **What a transaction must be like to pass.** -/
theorem check_eq_ok_iff {p : Params} {tx : Tx} :
    tx.check p = .ok () ↔
      tx.inputs ≠ [] ∧ tx.outputs ≠ [] ∧ p.overweight tx.strippedSize = false
        ∧ checkOutputsFrom p 0 0 tx.outputs = .ok ()
        ∧ (tx.inputs.map TxInput.previous).Nodup ∧ checkNulls tx.inputs = .ok () := by
  rw [check_eq, ← checkSpends_eq_ok_iff, Except.refuse_eq_ok_iff, Except.refuse_eq_ok_iff,
    Except.refuse_eq_ok_iff, Except.seq_eq_ok_iff, Except.seq_eq_ok_iff, Bool.not_eq_true]

/-! ## §3. The null outpoint -/

/-- A coinbase has one input, which spends the null outpoint. -/
theorem isCoinbase_iff {tx : Tx} :
    tx.isCoinbase = true ↔ ∃ input, tx.inputs = [input] ∧ input.previous = .null := by
  unfold isCoinbase
  split
  · next input hinputs =>
    rw [hinputs, Outpoint.isNull, decide_eq_true_iff]
    constructor
    · exact fun h => ⟨input, rfl, h⟩
    · rintro ⟨input', hsame, hnull⟩
      cases hsame
      exact hnull
  · next hmany =>
    constructor
    · exact fun h => nomatch h
    · rintro ⟨input, hinputs, -⟩
      exact absurd hinputs (hmany input)

/-- How many inputs spend the null outpoint. -/
def nulls (tx : Tx) : Nat := tx.inputs.countP fun input => input.previous.isNull

/-- **A coinbase spends the null outpoint once, and any other transaction that passes never.** -/
theorem nulls_of_checkNulls {tx : Tx} (h : checkNulls tx.inputs = .ok ()) :
    tx.nulls = if tx.isCoinbase then 1 else 0 := by
  obtain ⟨version, inputs, outputs, lockTime, txid, wtxid⟩ := tx
  match inputs, h with
  | [], _ => rfl
  | [_], _ => exact List.countP_singleton
  | first :: second :: rest, h =>
    -- no coinbase, so the check has looked at every input
    have hnone : (first :: second :: rest).any (fun input => input.previous.isNull) = false := by
      by_contra hsome
      rw [Bool.not_eq_false] at hsome
      have hfault : checkNulls (first :: second :: rest) = .error .nullOutpoint := if_pos hsome
      cases hfault.symm.trans h
    exact List.countP_eq_zero.2 (List.any_eq_false.1 hnone)

end Tx

end HeaderPeer
