/-
  HeaderPeer.Bytes — byte strings, and the numbers written in them.

  A byte string is a list of bytes.  A number of fixed width is written in base 256, least
  significant byte first ("LE") or most significant byte first ("BE"); writing what was read gives
  the bytes back (`ofNatLE_toNatLE`).
-/
namespace HeaderPeer

/-- A finite string of bytes, first byte first. -/
abbrev Bytes := List UInt8

namespace Bytes

/-! ## §1. Numbers in base 256 -/

/-- The number whose base-256 digits are `bs`, least significant digit first. -/
def toNatLE : Bytes → Nat
  | [] => 0
  | b :: bs => b.toNat + 256 * toNatLE bs

/-- The `width` lowest base-256 digits of `n`, least significant digit first. -/
def ofNatLE : (width n : Nat) → Bytes
  | 0, _ => []
  | width + 1, n => UInt8.ofNat n :: ofNatLE width (n / 256)

/-- The number whose base-256 digits are `bs`, most significant digit first. -/
def toNatBE (bs : Bytes) : Nat := toNatLE bs.reverse

/-- The `width` lowest base-256 digits of `n`, most significant digit first. -/
def ofNatBE (width n : Nat) : Bytes := (ofNatLE width n).reverse

@[simp] theorem length_ofNatLE (width n : Nat) : (ofNatLE width n).length = width := by
  induction width generalizing n with
  | zero => rfl
  | succ width ih => simp [ofNatLE, ih]

@[simp] theorem length_ofNatBE (width n : Nat) : (ofNatBE width n).length = width := by
  simp [ofNatBE]

/-- Writing what was read gives the bytes back. -/
theorem ofNatLE_toNatLE (bs : Bytes) : ofNatLE bs.length (toNatLE bs) = bs := by
  induction bs with
  | nil => rfl
  | cons b bs ih =>
    have hb := b.toNat_lt
    have hlow : UInt8.ofNat (b.toNat + 256 * toNatLE bs) = b := by
      apply UInt8.toNat_inj.1
      have hmod : (UInt8.ofNat (b.toNat + 256 * toNatLE bs)).toNat
          = (b.toNat + 256 * toNatLE bs) % 256 := UInt8.toNat_ofNat'
      omega
    have hhigh : (b.toNat + 256 * toNatLE bs) / 256 = toNatLE bs := by omega
    simp only [toNatLE, List.length_cons, ofNatLE, hlow, hhigh, ih]

/-! ## §2. Lengths -/

/-- Whether a byte string has fewer than `n` bytes.  No more than `n` of them are looked at. -/
def isShorter : (bs : Bytes) → (n : Nat) → Bool
  | _, 0 => false
  | [], _ + 1 => true
  | _ :: bs, n + 1 => isShorter bs n

@[simp] theorem isShorter_iff {bs : Bytes} {n : Nat} : bs.isShorter n = true ↔ bs.length < n := by
  induction bs generalizing n with
  | nil => cases n <;> simp [isShorter]
  | cons b bs ih => cases n <;> simp [isShorter, ih]

/-! ## §3. Text as bytes -/

/-- The UTF-8 form of a text. -/
def ofText (s : String) : Bytes := s.toUTF8.data.toList

/-- The text whose UTF-8 form is `bs`, if there is one. -/
def toText? (bs : Bytes) : Option String := String.fromUTF8? ⟨bs.toArray⟩

theorem toText?_ofText (s : String) : toText? (ofText s) = some s := by
  have h : (⟨s.toUTF8.data.toList.toArray⟩ : ByteArray) = s.toByteArray := by simp
  unfold toText? ofText String.fromUTF8?
  rw [h]
  simp only [s.isValidUTF8, dif_pos]
  rfl

theorem ofText_of_toText? {bs : Bytes} {s : String} (h : toText? bs = some s) :
    ofText s = bs := by
  simp only [toText?, String.fromUTF8?] at h
  split at h
  · cases h
    simp [ofText, String.fromUTF8]
  · cases h

end Bytes

end HeaderPeer
