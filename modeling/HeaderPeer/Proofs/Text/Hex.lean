/-
  HeaderPeer.Proofs.Text.Hex — hexadecimal digits as characters.

  A reader of hexadecimal text works on the bytes of the text.  A byte below 128 is a whole character
  and a byte above is no digit, so what it accepts can be said of the characters: each of them is a
  digit, in either case.

  Main statements:
    * `decode_eq_ok_iff` — which bytes are read as which digits.
    * `reads_utf8_iff` — the bytes of a text are digits exactly if its characters are.
-/
import HeaderPeer.Proofs.Text.Ascii
import Mathlib.Data.List.Forall2

namespace HeaderPeer

/-! ## §1. Characters and bytes -/

namespace Bytes

theorem ofText_eq (s : String) : ofText s = s.toList.flatMap String.utf8EncodeChar := by
  conv => lhs; rw [← String.ofList_toList (s := s)]
  show (String.ofList s.toList).toByteArray.data.toList = _
  rw [String.toByteArray_ofList, List.utf8Encode]
  simp

theorem length_ofText (s : String) : (ofText s).length = s.utf8ByteSize := by
  rw [ofText, Array.length_toList, ByteArray.size_data]
  exact String.size_toByteArray

theorem not_lt_of_lead {n : Nat} (hlow : 128 ≤ n) (hhigh : n < 256) :
    ¬ UInt8.ofNat n < 0x80 := by
  intro h
  have hvalue : (UInt8.ofNat n).toNat < 128 := h
  rw [UInt8.toNat_ofNat'] at hvalue
  omega

/-- A character has a first byte, and if that is below 128 it is the whole character. -/
theorem exists_utf8EncodeChar (c : Char) :
    ∃ b rest, String.utf8EncodeChar c = b :: rest
      ∧ (b < 0x80 → rest = [] ∧ c = Char.ofNat b.toNat) := by
  unfold String.utf8EncodeChar
  by_cases hascii : c.val.toNat ≤ 127
  · have hbyte : (UInt8.ofNat c.val.toNat).toNat = c.toNat := by
      rw [UInt8.toNat_ofNat']
      exact Nat.mod_eq_of_lt (by omega)
    refine ⟨_, [], if_pos hascii, fun _ => ⟨rfl, ?_⟩⟩
    rw [hbyte, Char.ofNat_toNat]
  · -- the first byte of a longer form is marked as such
    simp only [if_neg hascii]
    split
    · exact ⟨_, _, rfl, fun h => absurd h (not_lt_of_lead (by omega) (by omega))⟩
    · split
      · exact ⟨_, _, rfl, fun h => absurd h (not_lt_of_lead (by omega) (by omega))⟩
      · exact ⟨_, _, rfl, fun h => absurd h (not_lt_of_lead (by omega) (by omega))⟩

/-- A text whose first byte is below 128 begins with the character of that number. -/
theorem eq_cons_of_utf8 {cs : List Char} {b : UInt8} {bs : Bytes} (hb : b < 0x80)
    (h : cs.flatMap String.utf8EncodeChar = b :: bs) :
    ∃ rest, cs = Char.ofNat b.toNat :: rest ∧ rest.flatMap String.utf8EncodeChar = bs := by
  cases cs with
  | nil => cases h
  | cons c cs =>
    obtain ⟨b', rest, hc, hascii⟩ := exists_utf8EncodeChar c
    rw [List.flatMap_cons, hc, List.cons_append, List.cons.injEq] at h
    obtain ⟨rfl, hrest⟩ := h
    obtain ⟨rfl, rfl⟩ := hascii hb
    exact ⟨cs, rfl, hrest⟩

end Bytes

namespace Hex

/-! ## §2. Digits -/

/-- Whether a character is the hexadecimal digit for `n`, in either case. -/
def Writes (c : Char) (n : Nat) : Prop :=
  n < 16 ∧ (c = Nat.digitChar n ∨ c = (Nat.digitChar n).toUpper)

/-- What holds of each digit in both cases holds of what writes it. -/
theorem Writes.of_forall {P : Char → Nat → Prop} {c : Char} {n : Nat} (h : Writes c n)
    (hall : ∀ k : Fin 16, P (Nat.digitChar k.val) k.val ∧ P (Nat.digitChar k.val).toUpper k.val) :
    P c n := by
  obtain ⟨hn, rfl | rfl⟩ := h
  · exact (hall ⟨n, hn⟩).1
  · exact (hall ⟨n, hn⟩).2

/-- A digit is one byte, and that byte has its value. -/
theorem Writes.byte {c : Char} {n : Nat} (h : Writes c n) :
    String.utf8EncodeChar c = [UInt8.ofNat c.toNat] ∧ value? (UInt8.ofNat c.toNat) = some n := by
  refine h.of_forall (P := fun c n => String.utf8EncodeChar c = [UInt8.ofNat c.toNat]
    ∧ value? (UInt8.ofNat c.toNat) = some n) ?_
  decide

/-- A character is its own lower case, or the upper case of that. -/
theorem eq_toLower_or (c : Char) : c = c.toLower ∨ c = c.toLower.toUpper := by
  have hletters : ∀ k : Fin 26,
      Char.ofNat (65 + k.val) = (Char.ofNat (65 + k.val)).toLower.toUpper := by decide
  by_cases h : 'A'.val ≤ c.val ∧ c.val ≤ 'Z'.val
  · right
    have hlow : 65 ≤ c.toNat := UInt32.le_iff_toNat_le.1 h.1
    have hhigh : c.toNat ≤ 90 := UInt32.le_iff_toNat_le.1 h.2
    have hc := hletters ⟨c.toNat - 65, by omega⟩
    simp only [Nat.add_sub_cancel' hlow, Char.ofNat_toNat] at hc
    exact hc
  · left
    unfold Char.toLower
    rw [dif_neg h]

/-- The digits for a number are those that are its digit in lower case. -/
theorem writes_iff {c : Char} {n : Nat} : Writes c n ↔ n < 16 ∧ c.toLower = Nat.digitChar n := by
  constructor
  · intro h
    refine ⟨h.1, h.of_forall (P := fun c n => c.toLower = Nat.digitChar n) ?_⟩
    decide
  · rintro ⟨hn, hc⟩
    refine ⟨hn, ?_⟩
    rw [← hc]
    exact eq_toLower_or c

/-- Characters write digits exactly if in lower case they are these digits. -/
theorem forall₂_writes_iff {cs : List Char} {ds : List Nat} :
    List.Forall₂ Writes cs ds
      ↔ (∀ d ∈ ds, d < 16) ∧ cs.map Char.toLower = ds.map Nat.digitChar := by
  induction cs generalizing ds with
  | nil =>
    rw [List.forall₂_nil_left_iff]
    constructor
    · rintro rfl
      exact ⟨fun d hd => (nomatch hd), rfl⟩
    · rintro ⟨-, h⟩
      exact List.map_eq_nil_iff.1 h.symm
  | cons c cs ih =>
    cases ds with
    | nil => simp
    | cons d ds =>
      rw [List.forall₂_cons, ih, writes_iff, List.forall_mem_cons, List.map_cons, List.map_cons,
        List.cons.injEq]
      exact and_and_and_comm

theorem lt_of_writes {cs : List Char} {ds : List Nat} (h : List.Forall₂ Writes cs ds) :
    ∀ d ∈ ds, d < 16 :=
  (forall₂_writes_iff.1 h).1

/-- A byte with a value is a digit. -/
theorem writes_of_value? {b : UInt8} {n : Nat} (h : value? b = some n) :
    b < 0x80 ∧ Writes (Char.ofNat b.toNat) n := by
  have hall : ∀ k : Fin 256, ∀ n ∈ value? (UInt8.ofNat k.val),
      UInt8.ofNat k.val < 0x80 ∧ n < 16 ∧ (Char.ofNat k.val = Nat.digitChar n
        ∨ Char.ofNat k.val = (Nat.digitChar n).toUpper) := by decide +kernel
  have hb := hall ⟨b.toNat, b.toNat_lt⟩ n
  simp only [UInt8.ofNat_toNat] at hb
  exact hb h

/-- The values of the digits of a byte string, two for each byte, high half first. -/
def nibbles (bs : Bytes) : List Nat := bs.flatMap fun b => [b.toNat / 16, b.toNat % 16]

theorem nibbles_cons (b : UInt8) (bs : Bytes) :
    nibbles (b :: bs) = b.toNat / 16 :: b.toNat % 16 :: nibbles bs := rfl

theorem length_nibbles (bs : Bytes) : (nibbles bs).length = 2 * bs.length := by
  induction bs with
  | nil => rfl
  | cons b bs ih =>
    simp only [nibbles_cons, List.length_cons, ih]
    omega

theorem lt_of_mem_nibbles {bs : Bytes} {n : Nat} (h : n ∈ nibbles bs) : n < 16 := by
  obtain ⟨b, -, hn⟩ := List.mem_flatMap.1 h
  have hb := b.toNat_lt
  rw [List.mem_cons, List.mem_singleton] at hn
  rcases hn with rfl | rfl
  · omega
  · omega

theorem toNat_digit {n : Nat} (h : n < 16) : Char.ofNat (digit n).toNat = Nat.digitChar n := by
  have hall : ∀ k : Fin 16, Char.ofNat (digit k.val).toNat = Nat.digitChar k.val := by decide
  exact hall ⟨n, h⟩

theorem toList_encode (bs : Bytes) : (encode bs).toList = (nibbles bs).map Nat.digitChar := by
  rw [encode, String.toList_ofList]
  induction bs with
  | nil => rfl
  | cons b bs ih =>
    have hb := b.toNat_lt
    rw [nibbles_cons, List.map_cons, List.map_cons, ← ih, ← toNat_digit (by omega),
      ← toNat_digit (by omega)]
    rfl

/-! ## §3. Reading -/

/-- Whether the bytes of a text are digits with the given values. -/
def Reads (text : Bytes) (ds : List Nat) : Prop :=
  List.Forall₂ (fun b n => value? b = some n) text ds

/-- Two digits are a byte. -/
theorem reads_cons_iff {high low : UInt8} {rest bs : Bytes} :
    Reads (high :: low :: rest) (nibbles bs) ↔
      ∃ h l bs', value? high = some h ∧ value? low = some l
        ∧ bs = UInt8.ofNat (16 * h + l) :: bs' ∧ Reads rest (nibbles bs') := by
  unfold Reads
  constructor
  · intro hreads
    cases bs with
    | nil => cases hreads
    | cons b bs =>
      rw [nibbles_cons, List.forall₂_cons, List.forall₂_cons] at hreads
      refine ⟨_, _, bs, hreads.1, hreads.2.1, ?_, hreads.2.2⟩
      rw [Nat.div_add_mod, UInt8.ofNat_toNat]
  · rintro ⟨h, l, bs', hhigh, hlow, rfl, hrest⟩
    have hh := (writes_of_value? hhigh).2.1
    have hl := (writes_of_value? hlow).2.1
    have hbyte : (UInt8.ofNat (16 * h + l)).toNat = 16 * h + l := by
      rw [UInt8.toNat_ofNat']
      omega
    have hdiv : (16 * h + l) / 16 = h := by omega
    have hmod : (16 * h + l) % 16 = l := by omega
    rw [nibbles_cons, hbyte, hdiv, hmod]
    exact .cons hhigh (.cons hlow hrest)

/-- Digits are read in pairs, and reading goes on as long as there are two of them. -/
theorem decodeFrom_eq_ok_iff {position : Nat} {text bs : Bytes} (heven : text.length % 2 = 0) :
    decodeFrom position text = .ok bs ↔ Reads text (nibbles bs) := by
  fun_induction decodeFrom position text generalizing bs with
  | case1 position high low rest hhigh =>
    rw [reads_cons_iff, hhigh]
    simp
  | case2 position high low rest h hlow hhigh =>
    rw [reads_cons_iff, hlow]
    simp
  | case3 position high low rest h l hlow hhigh bs' hrest ih =>
    simp only [List.length_cons] at heven
    rw [reads_cons_iff, Except.ok.injEq]
    constructor
    · rintro rfl
      exact ⟨h, l, bs', hhigh, hlow, rfl, (ih (by omega)).1 hrest⟩
    · rintro ⟨h', l', bs'', hhigh', hlow', rfl, hreads⟩
      cases hhigh.symm.trans hhigh'
      cases hlow.symm.trans hlow'
      cases hrest.symm.trans ((ih (by omega)).2 hreads)
      rfl
  | case4 position high low rest h l hlow hhigh e hrest ih =>
    simp only [List.length_cons] at heven
    rw [reads_cons_iff]
    constructor
    · intro hok
      cases hok
    · rintro ⟨-, -, bs'', -, -, -, hreads⟩
      cases hrest.symm.trans ((ih (by omega)).2 hreads)
  | case5 text position hshort =>
    match text, hshort, heven with
    | [], _, _ =>
      unfold Reads
      rw [List.forall₂_nil_left_iff, ← List.length_eq_zero_iff, length_nibbles]
      constructor
      · rintro ⟨⟩
        rfl
      · intro hlength
        rw [List.length_eq_zero_iff.1 (by omega : bs.length = 0)]
    | [_], _, heven => simp at heven
    | _ :: _ :: _, hshort, _ => exact absurd rfl (hshort _ _ _)

/-- **A text is read as a byte string exactly if its bytes are the digits of it.** -/
theorem decode_eq_ok_iff {text bs : Bytes} :
    decode text = .ok bs ↔ Reads text (nibbles bs) := by
  unfold decode
  by_cases hodd : text.length % 2 = 1
  · rw [if_pos hodd]
    constructor
    · intro h
      cases h
    · intro h
      have hlength := List.Forall₂.length_eq h
      rw [length_nibbles] at hlength
      omega
  · rw [if_neg hodd]
    exact decodeFrom_eq_ok_iff (by omega)

/-- **The bytes of a text are digits exactly if its characters are.** -/
theorem reads_utf8_iff {cs : List Char} {ds : List Nat} :
    Reads (cs.flatMap String.utf8EncodeChar) ds ↔ List.Forall₂ Writes cs ds := by
  unfold Reads
  induction cs generalizing ds with
  | nil => rw [List.flatMap_nil, List.forall₂_nil_left_iff, List.forall₂_nil_left_iff]
  | cons c cs ih =>
    rw [List.flatMap_cons]
    constructor
    · intro h
      obtain ⟨b, rest, hc, hascii⟩ := Bytes.exists_utf8EncodeChar c
      rw [hc, List.cons_append] at h
      cases h with
      | cons hb hrest =>
        obtain ⟨hlow, hwrites⟩ := writes_of_value? hb
        obtain ⟨rfl, rfl⟩ := hascii hlow
        exact .cons hwrites (ih.1 hrest)
    · intro h
      cases h with
      | cons hc hrest =>
        obtain ⟨hbyte, hb⟩ := hc.byte
        rw [hbyte]
        exact .cons hb (ih.2 hrest)

end Hex

end HeaderPeer
