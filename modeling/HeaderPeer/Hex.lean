/-
  HeaderPeer.Hex — byte strings as hexadecimal text.

  Writing uses lower-case digits, two for each byte.  Reading accepts either case, looks at the
  parity of the length first, and names the first byte that is no digit.  What was written reads
  back (`decode_digits`).
-/
import HeaderPeer.Bytes
import HeaderPeer.Text.Quoted

namespace HeaderPeer.Hex

/-! ## §1. Digits -/

/-- The lower-case digit for `n < 16`, as an ASCII byte. -/
def digit (n : Nat) : UInt8 :=
  if n < 10 then UInt8.ofNat (48 + n) else UInt8.ofNat (87 + n)

/-- The value of a hexadecimal digit of either case, given as an ASCII byte. -/
def value? (c : UInt8) : Option Nat :=
  if 48 ≤ c ∧ c ≤ 57 then some (c.toNat - 48)
  else if 97 ≤ c ∧ c ≤ 102 then some (c.toNat - 87)
  else if 65 ≤ c ∧ c ≤ 70 then some (c.toNat - 55)
  else none

/-! ## §2. Writing -/

/-- The ASCII bytes of the digits of `bs`, two for each byte, high half first. -/
def digits (bs : Bytes) : Bytes :=
  bs.flatMap fun b => [digit (b.toNat / 16), digit (b.toNat % 16)]

def encode (bs : Bytes) : String :=
  String.ofList ((digits bs).map fun c => Char.ofNat c.toNat)

/-! ## §3. Reading -/

/-- Why a text is no hexadecimal form. -/
inductive Error where
  /-- The text has an odd number of bytes. -/
  | oddLength
  /-- The byte `byte`, found at `position`, is no digit. -/
  | notDigit (byte : UInt8) (position : Nat)
  deriving DecidableEq, Repr

/-- The wording of a failure; the offending byte is shown as the character of its number. -/
def Error.message : Error → String
  | .oddLength => "Odd number of digits"
  | .notDigit byte position =>
    "Invalid character " ++ Quoted.ofChar (Char.ofNat byte.toNat)
      ++ " at position " ++ toString position

/-- Reads digits in pairs; `position` is where the first of them stands in the whole text. -/
def decodeFrom (position : Nat) : Bytes → Except Error Bytes
  | high :: low :: rest =>
    match value? high, value? low with
    | none, _ => .error (.notDigit high position)
    | some _, none => .error (.notDigit low (position + 1))
    | some h, some l =>
      match decodeFrom (position + 2) rest with
      | .ok bs => .ok (UInt8.ofNat (16 * h + l) :: bs)
      | .error e => .error e
  | _ => .ok []

/-- The byte string written by the hexadecimal text whose bytes are `text`. -/
def decode (text : Bytes) : Except Error Bytes :=
  if text.length % 2 = 1 then .error .oddLength else decodeFrom 0 text

/-! ## §4. What was written reads back -/

theorem value?_digit (n : Nat) (h : n < 16) : value? (digit n) = some n := by
  have : ∀ k : Fin 16, value? (digit k.val) = some k.val := by decide
  exact this ⟨n, h⟩

@[simp] theorem length_digits (bs : Bytes) : (digits bs).length = 2 * bs.length := by
  induction bs with
  | nil => rfl
  | cons b bs ih =>
    simp only [digits, List.flatMap_cons, List.length_append, List.length_cons] at ih ⊢
    simp only [List.length_nil]
    omega

theorem decodeFrom_digits (bs : Bytes) (position : Nat) :
    decodeFrom position (digits bs) = .ok bs := by
  induction bs generalizing position with
  | nil => rfl
  | cons b bs ih =>
    have hb := b.toNat_lt
    have hhigh := value?_digit (b.toNat / 16) (by omega)
    have hlow := value?_digit (b.toNat % 16) (by omega)
    have hbyte : UInt8.ofNat (16 * (b.toNat / 16) + b.toNat % 16) = b := by
      rw [Nat.div_add_mod]
      exact UInt8.ofNat_toNat
    show decodeFrom position (digit _ :: digit _ :: digits bs) = _
    rw [decodeFrom, hhigh, hlow]
    simp only [ih, hbyte]

/-- Reading the digits of a byte string gives it back. -/
theorem decode_digits (bs : Bytes) : decode (digits bs) = .ok bs := by
  have heven : ¬ (digits bs).length % 2 = 1 := by
    rw [length_digits]
    omega
  rw [decode, if_neg heven, decodeFrom_digits]

end HeaderPeer.Hex
