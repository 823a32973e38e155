/-
  HeaderPeer.Proofs.Word256.Compact — the number that a compact target denotes.

  A compact target has a value in the arithmetic of natural numbers: its mantissa, moved up or down
  by whole bytes until it takes as many bytes as the size says.  The form is decoded in thirty-two
  bytes, with three tests for a mantissa that would leave them and one for the sign.  All of this
  comes to two conditions: the sign bit is clear, and the value is a positive number of 256 bits.

  Main statements:
    * `toNatLE_targetBytes` — the bytes hold the value, up to 256 bits.
    * `overflows_iff` — the tests find exactly the values of more than 256 bits.
    * `target?_eq_some_iff` — which forms denote a target, and which target.
    * `lost_eq_zero` — above the thirty-two bytes of a target stood nothing but zeros.
-/
import HeaderPeer.Proofs.Bytes
import HeaderPeer.Word256.Compact

namespace HeaderPeer.Compact

/-! ## §1. The value -/

/-- The mantissa at the place that the size names, as a number without a limit. -/
def value (c : Compact) : Nat :=
  if 3 ≤ c.size then c.mantissa * 256 ^ (c.size - 3) else c.mantissa / 256 ^ (3 - c.size)

/-- The sign bit is clear, and the value is a positive number of 256 bits. -/
structure Proper (c : Compact) : Prop where
  unsigned : c &&& 0x00800000 = 0
  pos : 0 < c.value
  lt : c.value < 2 ^ 256

theorem mantissa_lt (c : Compact) : c.mantissa < 2 ^ 23 := by
  have hle : c.toNat &&& 0x007fffff ≤ 0x007fffff := Nat.and_le_right
  rw [mantissa, UInt32.toNat_and]
  exact Nat.lt_succ_of_le hle

theorem value_of_le {c : Compact} (h : 3 ≤ c.size) :
    c.value = c.mantissa * 256 ^ (c.size - 3) := if_pos h

theorem value_of_mantissa_eq_zero {c : Compact} (h : c.mantissa = 0) : c.value = 0 := by
  unfold value
  rw [h]
  split
  · exact Nat.zero_mul _
  · exact Nat.zero_div _

/-- A size of at most thirty-two bytes leaves room for every mantissa. -/
theorem value_lt {c : Compact} (h : c.size ≤ 32) : c.value < 2 ^ 256 := by
  have hm := c.mantissa_lt
  unfold value
  split
  · have hpow : 256 ^ (c.size - 3) ≤ 256 ^ 29 := Nat.pow_le_pow_right (by decide) (by omega)
    calc c.mantissa * 256 ^ (c.size - 3)
        ≤ 2 ^ 23 * 256 ^ 29 := Nat.mul_le_mul (Nat.le_of_lt hm) hpow
      _ < 2 ^ 256 := by decide
  · have hle := Nat.div_le_self c.mantissa (256 ^ (3 - c.size))
    omega

/-- **The tests for an overflow find exactly the values of more than 256 bits.**  Up to thirty-two
bytes every mantissa has room, of thirty-three two of its bytes have, of thirty-four one. -/
theorem overflows_iff (c : Compact) : c.overflows = true ↔ 2 ^ 256 ≤ c.value := by
  rw [overflows, decide_eq_true_iff]
  by_cases hroom : c.size ≤ 32
  · have hlt := value_lt hroom
    omega
  rw [value_of_le (by omega)]
  by_cases htwo : c.size = 33
  · rw [htwo]
    omega
  by_cases hone : c.size = 34
  · rw [hone]
    omega
  -- a mantissa that is not zero stands above the 256 bits as a whole
  by_cases hzero : c.mantissa = 0
  · rw [hzero]
    omega
  · have hpow : 256 ^ 32 ≤ 256 ^ (c.size - 3) := Nat.pow_le_pow_right (by decide) (by omega)
    have hone : 1 * 256 ^ (c.size - 3) ≤ c.mantissa * 256 ^ (c.size - 3) :=
      Nat.mul_le_mul_right _ (Nat.pos_of_ne_zero hzero)
    omega

/-! ## §2. The bytes -/

/-- The mantissa at its place, before it is cut off at thirty-two bytes. -/
def placed (c : Compact) : Bytes := List.replicate (c.size - 3) 0 ++ Bytes.ofNatLE 3 c.mantissa

theorem toNatLE_placed (c : Compact) :
    c.placed.toNatLE = c.mantissa * 256 ^ (c.size - 3) := by
  have hm := c.mantissa_lt
  have hzeros : Bytes.toNatLE (List.replicate (c.size - 3) 0) = 0 :=
    Bytes.toNatLE_eq_zero_iff.2 fun b hb => List.eq_of_mem_replicate hb
  rw [placed, Bytes.toNatLE_append, hzeros, Bytes.toNatLE_ofNatLE, List.length_replicate,
    Nat.mod_eq_of_lt (by omega), Nat.zero_add, Nat.mul_comm]

/-- **The bytes of the target hold the value, up to 256 bits.** -/
theorem toNatLE_targetBytes (c : Compact) : c.targetBytes.toNatLE = c.value % 2 ^ 256 := by
  have hbits : 256 ^ 32 = 2 ^ 256 := by decide
  unfold targetBytes value
  by_cases hsmall : c.size ≤ 3
  · rw [if_pos hsmall, Bytes.toNatLE_ofNatLE, hbits, Nat.shiftRight_eq_div_pow, Nat.pow_mul]
    by_cases hthree : c.size = 3
    · rw [hthree]
      simp
    · rw [if_neg (by omega)]
  · rw [if_neg hsmall, if_pos (by omega), Bytes.toNatLE_take, hbits]
    exact congrArg (· % 2 ^ 256) c.toNatLE_placed

/-- Where the value has 256 bits, only zeros stand above the thirty-two bytes. -/
theorem lost_eq_zero (c : Compact) (h : c.value < 2 ^ 256) : ∀ b ∈ c.placed.drop 32, b = 0 := by
  have hbits : 256 ^ 32 = 2 ^ 256 := by decide
  have hlength : c.placed.length = c.size - 3 + 3 := by
    rw [placed, List.length_append, List.length_replicate, Bytes.length_ofNatLE]
  by_cases hshort : c.placed.length ≤ 32
  · rw [List.drop_eq_nil_of_le hshort]
    exact fun _ hb => nomatch hb
  · have hvalue : c.placed.toNatLE = c.value := by
      rw [toNatLE_placed, value_of_le (by omega)]
    have hsplit := Bytes.toNatLE_append (c.placed.take 32) (c.placed.drop 32)
    rw [List.take_append_drop, hvalue, List.length_take_of_le (by omega), hbits] at hsplit
    rw [← Bytes.toNatLE_eq_zero_iff]
    omega

/-! ## §3. The target -/

theorem negative_iff (c : Compact) :
    c.negative = true ↔ c.mantissa ≠ 0 ∧ c &&& 0x00800000 ≠ 0 := by
  rw [negative, decide_eq_true_iff]

theorem target?_of_refused {c : Compact} (h : c.negative = true ∨ c.overflows = true) :
    c.target? = none := by
  rw [target?, if_pos (Bool.or_eq_true_iff.2 h)]

/-- What is neither negative nor too large denotes its value, unless that is zero. -/
theorem target?_of_kept {c : Compact} (hsign : c.negative = false) (hroom : c.value < 2 ^ 256) :
    c.target? = if c.value = 0 then none else some (BitVec.ofNat 256 c.value) := by
  have hkept : ¬ (c.negative || c.overflows) = true := by
    rw [hsign, Bool.false_or, overflows_iff]
    omega
  have hword : Word256.ofBytes c.targetBytes = BitVec.ofNat 256 c.value := by
    rw [Word256.ofBytes, toNatLE_targetBytes, Nat.mod_eq_of_lt hroom]
  have hzero : BitVec.ofNat 256 c.value = 0 ↔ c.value = 0 := by
    rw [← BitVec.toNat_inj, BitVec.toNat_ofNat, Nat.mod_eq_of_lt hroom]
    rfl
  rw [target?, if_neg hkept]
  simp only [hword, hzero]

theorem target?_of_proper {c : Compact} (h : c.Proper) :
    c.target? = some (BitVec.ofNat 256 c.value) := by
  have hsign : c.negative = false :=
    Bool.eq_false_iff.2 fun hneg => (c.negative_iff.1 hneg).2 h.unsigned
  rw [target?_of_kept hsign h.lt, if_neg (Nat.ne_of_gt h.pos)]

theorem target?_of_not_proper {c : Compact} (h : ¬ c.Proper) : c.target? = none := by
  by_cases hroom : c.value < 2 ^ 256
  · by_cases hsign : c.negative = true
    · exact target?_of_refused (.inl hsign)
    · rw [target?_of_kept (Bool.not_eq_true _ ▸ hsign) hroom]
      by_cases hzero : c.value = 0
      · rw [if_pos hzero]
      · -- the sign bit is set, but of a mantissa that is zero, and so is the value
        have hbit : ¬ c &&& 0x00800000 = 0 := fun hbit => h ⟨hbit, Nat.pos_of_ne_zero hzero, hroom⟩
        have hmantissa : c.mantissa = 0 :=
          Decidable.of_not_not fun hsome => hsign (c.negative_iff.2 ⟨hsome, hbit⟩)
        exact absurd (value_of_mantissa_eq_zero hmantissa) hzero
  · exact target?_of_refused (.inr (c.overflows_iff.2 (Nat.le_of_not_lt hroom)))

/-- **A form denotes its value if the sign bit is clear and the value is a positive number of 256
bits, and nothing otherwise.** -/
theorem target?_eq_some_iff {c : Compact} {target : Word256} :
    c.target? = some target ↔ c.Proper ∧ target.toNat = c.value := by
  by_cases h : c.Proper
  · have hnat : (BitVec.ofNat 256 c.value).toNat = c.value := by
      rw [BitVec.toNat_ofNat, Nat.mod_eq_of_lt h.lt]
    rw [target?_of_proper h, Option.some_inj, and_iff_right h, ← BitVec.toNat_inj, hnat]
    exact eq_comm
  · rw [target?_of_not_proper h]
    exact ⟨fun hnone => (nomatch hnone), fun hproper => absurd hproper.1 h⟩

end HeaderPeer.Compact
