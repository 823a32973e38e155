/-
  HeaderPeer.Proofs.Rule.Work — the rule on work compares numbers.

  A header is asked for a target that the network allows and for a hash that does not exceed it.
  Target, limit and hash are words of 256 bits and the target comes out of a compact form, but what
  is compared are the natural numbers behind them.

  Main statements:
    * `allowed_iff` — which compact forms give an allowed target.
    * `proofOfWork_exact` — what the rule says of every header.
-/
import HeaderPeer.Proofs.Word256.Compact
import HeaderPeer.Proofs.Word256.Limbs
import HeaderPeer.Rule.Header

namespace HeaderPeer

/-- A compact form denotes a target that the network allows. -/
def Params.AllowsTarget (p : Params) (bits : Compact) : Prop :=
  bits &&& 0x00800000 = 0 ∧ 0 < bits.value ∧ bits.value ≤ p.powLimit.toNat

instance (p : Params) (bits : Compact) : Decidable (p.AllowsTarget bits) :=
  inferInstanceAs (Decidable (_ ∧ _ ∧ _))

variable {p : Params} {bits : Compact}

/-- A target that is no larger than the limit is a number of 256 bits. -/
theorem Params.AllowsTarget.proper (h : p.AllowsTarget bits) : bits.Proper :=
  ⟨h.1, h.2.1, Nat.lt_of_le_of_lt h.2.2 p.powLimit.isLt⟩

theorem allowed_iff {target : Word256} :
    bits.target?.filter (· ≤ p.powLimit) = some target ↔
      p.AllowsTarget bits ∧ target.toNat = bits.value := by
  rw [Option.filter_eq_some_iff, Compact.target?_eq_some_iff, decide_eq_true_iff, BitVec.le_def]
  constructor
  · rintro ⟨⟨hproper, hvalue⟩, hlimit⟩
    rw [hvalue] at hlimit
    exact ⟨⟨hproper.unsigned, hproper.pos, hlimit⟩, hvalue⟩
  · rintro ⟨hallowed, hvalue⟩
    refine ⟨⟨hallowed.proper, hvalue⟩, ?_⟩
    rw [hvalue]
    exact hallowed.2.2

namespace HeaderRule

variable {t : HeaderTrial} {f : Findings}

theorem proofOfWork_of_allowed (h : t.params.AllowsTarget t.header.bits) :
    proofOfWork.check t f =
      if t.header.hash.toNat ≤ t.header.bits.value then .pass f
      else .reject f (.aboveTarget t.header.hash (BitVec.ofNat 256 t.header.bits.value)) := by
  have hnat : (BitVec.ofNat 256 t.header.bits.value).toNat = t.header.bits.value := by
    rw [BitVec.toNat_ofNat, Nat.mod_eq_of_lt h.proper.lt]
  have htarget := allowed_iff.2 ⟨h, hnat⟩
  simp only [proofOfWork, htarget, BitVec.lt_def, hnat]
  by_cases hhash : t.header.hash.toNat ≤ t.header.bits.value
  · rw [if_neg (Nat.not_lt.2 hhash), if_pos hhash]
  · rw [if_pos (Nat.lt_of_not_le hhash), if_neg hhash]

theorem proofOfWork_of_not_allowed (h : ¬ t.params.AllowsTarget t.header.bits) :
    proofOfWork.check t f = .reject f (.bitsOutOfRange t.header.bits) := by
  have hnone : t.header.bits.target?.filter (· ≤ t.params.powLimit) = none := by
    rw [Option.eq_none_iff_forall_ne_some]
    intro target htarget
    exact h (allowed_iff.1 htarget).1
  simp only [proofOfWork, hnone]

/-- **The rule on work is a comparison of numbers.**  A compact form denotes its value exactly if
the sign bit is clear and the value is a positive number of 256 bits, and then no byte of the
mantissa but zeros is cut off.  Limb by limb, words compare as numbers do.  Every header passes the
rule if its form denotes a target that is at most the limit and its hash is at most the target; it
is refused for its bits if the target is not allowed, and for its hash otherwise. -/
theorem proofOfWork_exact :
    (∀ (c : Compact) (target : Word256), c.target? = some target ↔
        c &&& 0x00800000 = 0 ∧ 0 < c.value ∧ c.value < 2 ^ 256 ∧ target.toNat = c.value)
      ∧ (∀ c : Compact, c.target?.isSome → ∀ b ∈ c.placed.drop 32, b = 0)
      ∧ (∀ a b : Word256, Word256.compareLimbs a b = compare a.toNat b.toNat)
      ∧ (∀ (t : HeaderTrial) (f : Findings), proofOfWork.check t f =
          if t.header.bits &&& 0x00800000 = 0 ∧ 0 < t.header.bits.value
              ∧ t.header.bits.value ≤ t.params.powLimit.toNat then
            if t.header.hash.toNat ≤ t.header.bits.value then .pass f
            else .reject f (.aboveTarget t.header.hash (BitVec.ofNat 256 t.header.bits.value))
          else .reject f (.bitsOutOfRange t.header.bits))
      ∧ (∀ bits, (HeaderFault.bitsOutOfRange bits).rejection.reason = "bad-diffbits")
      ∧ ∀ hash target, (HeaderFault.aboveTarget hash target).rejection.reason = "high-hash" := by
  refine ⟨?_, ?_, Word256.compareLimbs_eq, ?_, fun _ => rfl, fun _ _ => rfl⟩
  · intro c target
    rw [Compact.target?_eq_some_iff]
    constructor
    · rintro ⟨hproper, hvalue⟩
      exact ⟨hproper.unsigned, hproper.pos, hproper.lt, hvalue⟩
    · rintro ⟨hsign, hpos, hlt, hvalue⟩
      exact ⟨⟨hsign, hpos, hlt⟩, hvalue⟩
  · intro c hsome
    obtain ⟨target, htarget⟩ := Option.isSome_iff_exists.1 hsome
    exact c.lost_eq_zero (Compact.target?_eq_some_iff.1 htarget).1.lt
  · intro t f
    show _ = if t.params.AllowsTarget t.header.bits then _ else _
    by_cases hallowed : t.params.AllowsTarget t.header.bits
    · rw [if_pos hallowed]
      exact proofOfWork_of_allowed hallowed
    · rw [if_neg hallowed]
      exact proofOfWork_of_not_allowed hallowed

/-- The largest form with a mantissa of one byte, which stands at the top of the 256 bits. -/
def topByte : Compact := 0x220000ff

/-- It denotes 255 · 256^31: two bytes of the mantissa are cut off, and both are zero. -/
theorem topByte_target :
    topByte.target? = some (BitVec.ofNat 256 (255 * 256 ^ 31))
      ∧ topByte.placed.drop 32 = [0, 0] ∧ ∀ b ∈ topByte.placed.drop 32, b = 0 := by
  have htarget := (proofOfWork_exact.1 topByte (BitVec.ofNat 256 (255 * 256 ^ 31))).2
    ⟨by decide, by decide +kernel, by decide +kernel, by decide +kernel⟩
  exact ⟨htarget, by decide, proofOfWork_exact.2.1 topByte (htarget ▸ rfl)⟩

end HeaderRule

end HeaderPeer
