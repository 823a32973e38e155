/-
  HeaderPeer.Proofs.Bytes — numbers in base 256 come back.

  A number that is written in a fixed width and read again has lost the digits that the width has no
  room for (`toNatLE_ofNatLE`, `toNatBE_ofNatBE`); a word always has room (`ofBytes_toBytes`).
-/
import HeaderPeer.Word256.Basic
import Mathlib.Algebra.Group.Nat.Defs

namespace HeaderPeer

namespace Bytes

theorem toNatLE_lt (bs : Bytes) : toNatLE bs < 256 ^ bs.length := by
  induction bs with
  | nil => decide
  | cons b bs ih =>
    have hb := b.toNat_lt
    simp only [toNatLE, List.length_cons, Nat.pow_succ]
    omega

/-- Reading what was written gives the number back, up to the width. -/
theorem toNatLE_ofNatLE (width n : Nat) : toNatLE (ofNatLE width n) = n % 256 ^ width := by
  induction width generalizing n with
  | zero => simp [ofNatLE, toNatLE, Nat.mod_one]
  | succ width ih =>
    have hlow : (UInt8.ofNat n).toNat = n % 256 := UInt8.toNat_ofNat'
    rw [ofNatLE, toNatLE, ih, hlow, Nat.pow_succ, Nat.mul_comm (256 ^ width), Nat.mod_mul]

theorem toNatBE_ofNatBE (width n : Nat) : toNatBE (ofNatBE width n) = n % 256 ^ width := by
  simp [toNatBE, ofNatBE, toNatLE_ofNatLE]

theorem toNatLE_append (xs ys : Bytes) :
    toNatLE (xs ++ ys) = toNatLE xs + 256 ^ xs.length * toNatLE ys := by
  induction xs with
  | nil => simp [toNatLE]
  | cons b xs ih =>
    rw [List.cons_append, toNatLE, toNatLE, ih, List.length_cons, Nat.pow_succ, Nat.mul_add,
      Nat.mul_comm (256 ^ xs.length) 256, Nat.mul_assoc, Nat.add_assoc]

theorem toNatLE_eq_zero_iff {bs : Bytes} : toNatLE bs = 0 ↔ ∀ b ∈ bs, b = 0 := by
  induction bs with
  | nil => exact ⟨fun _ _ h => (nomatch h), fun _ => rfl⟩
  | cons b bs ih =>
    have hzero : b.toNat = 0 ↔ b = 0 := UInt8.toNat_inj (b := 0)
    rw [List.forall_mem_cons, ← ih, ← hzero, toNatLE]
    omega

/-- The first digits are the remainder. -/
theorem toNatLE_take (bs : Bytes) (n : Nat) : toNatLE (bs.take n) = toNatLE bs % 256 ^ n := by
  by_cases h : n ≤ bs.length
  · have hlength : (bs.take n).length = n := List.length_take_of_le h
    have hlt := toNatLE_lt (bs.take n)
    have hsplit := toNatLE_append (bs.take n) (bs.drop n)
    rw [List.take_append_drop, hlength] at hsplit
    rw [hlength] at hlt
    rw [hsplit, Nat.add_mul_mod_self_left, Nat.mod_eq_of_lt hlt]
  · have hlt := toNatLE_lt bs
    have hroom : 256 ^ bs.length < 256 ^ n :=
      Nat.pow_lt_pow_right (by decide) (Nat.lt_of_not_le h)
    rw [List.take_of_length_le (by omega), Nat.mod_eq_of_lt (by omega)]

end Bytes

namespace Word256

theorem ofBytes_toBytes (w : Word256) : ofBytes w.toBytes = w := by
  apply BitVec.eq_of_toNat_eq
  have hw := w.isLt
  rw [ofBytes, toBytes, Bytes.toNatLE_ofNatLE, BitVec.toNat_ofNat]
  omega

theorem toBytes_ofBytes {bs : Bytes} (h : bs.length = 32) : (ofBytes bs).toBytes = bs := by
  have hlt := Bytes.toNatLE_lt bs
  rw [h] at hlt
  have hnat : (ofBytes bs).toNat = bs.toNatLE := by
    rw [ofBytes, BitVec.toNat_ofNat]
    omega
  rw [toBytes, hnat, ← h, Bytes.ofNatLE_toNatLE]

end Word256

end HeaderPeer
