/-
  HeaderPeer.Proofs.Text.Ascii — texts of ASCII characters.

  An ASCII character is one byte in UTF-8, and that byte is its number.  So a text of such
  characters and the string of its bytes can be had from each other.  The commands of frames and
  hexadecimal digits are texts of this kind.

  Main statements:
    * `Utf8.text_ofText` — an ASCII text is read back from its bytes.
    * `Hex.ofText_encode` — the bytes of a hexadecimal text are its digits.
    * `Hex.trim_encode` — a hexadecimal text has no blanks at its ends.
-/
import HeaderPeer.Hex
import HeaderPeer.Text.Blank
import HeaderPeer.Text.Utf8

namespace HeaderPeer

/-! ## §1. Characters and bytes -/

namespace Bytes

theorem utf8EncodeChar_ascii {b : UInt8} (h : b < 0x80) :
    String.utf8EncodeChar (Char.ofNat b.toNat) = [b] := by
  have hb : b.toNat < 128 := h
  have hvalid : b.toNat.isValidChar := Or.inl (by omega)
  have hval : (Char.ofNat b.toNat).val.toNat = b.toNat := by
    rw [Char.ofNat, dif_pos hvalid]
    rfl
  unfold String.utf8EncodeChar
  simp only [hval]
  rw [if_pos (by omega), UInt8.ofNat_toNat]

/-- The text whose characters have the numbers `bs` has the bytes `bs`. -/
theorem ofText_ascii {bs : Bytes} (h : ∀ b ∈ bs, b < 0x80) :
    ofText (String.ofList (bs.map fun b => Char.ofNat b.toNat)) = bs := by
  have hencode : (bs.map fun b => Char.ofNat b.toNat).flatMap String.utf8EncodeChar = bs := by
    induction bs with
    | nil => rfl
    | cons b bs ih =>
      rw [List.map_cons, List.flatMap_cons, utf8EncodeChar_ascii (h b List.mem_cons_self),
        ih fun c hc => h c (List.mem_cons_of_mem b hc)]
      rfl
  show (String.ofList _).toByteArray.data.toList = bs
  rw [String.toByteArray_ofList, List.utf8Encode, hencode]
  simp

theorem ofText_injective {s t : String} (h : ofText s = ofText t) : s = t := by
  have hs := toText?_ofText s
  rw [h, toText?_ofText t] at hs
  exact (Option.some.inj hs).symm

end Bytes

/-- **An ASCII text is read back from its bytes.** -/
theorem Utf8.text_ofText {s : String} (h : ∀ b ∈ Bytes.ofText s, b < 0x80) :
    text (Bytes.ofText s) = s := by
  apply Bytes.ofText_injective
  rw [text, decode_ascii _ h]
  exact Bytes.ofText_ascii h

/-! ## §2. Hexadecimal texts -/

namespace Blank

theorem trimFront_of_forall {cs : List Char} (h : ∀ c ∈ cs, isBlank c = false) :
    trimFront cs = cs := by
  cases cs with
  | nil => rfl
  | cons c cs =>
    have hc := h c List.mem_cons_self
    rw [trimFront, List.dropWhile_cons, hc]
    rfl

theorem trim_of_forall {s : String} (h : ∀ c ∈ s.toList, isBlank c = false) : trim s = s := by
  have hreverse : ∀ c ∈ s.toList.reverse, isBlank c = false := by
    intro c hc
    exact h c (List.mem_reverse.1 hc)
  rw [trim, trimFront_of_forall h, trimFront_of_forall hreverse, List.reverse_reverse]
  exact String.ofList_toList

end Blank

namespace Hex

/-- A digit is an ASCII character and no blank. -/
theorem digit_ascii {n : Nat} (h : n < 16) :
    digit n < 0x80 ∧ Blank.isBlank (Char.ofNat (digit n).toNat) = false := by
  have hall : ∀ k : Fin 16,
      digit k.val < 0x80 ∧ Blank.isBlank (Char.ofNat (digit k.val).toNat) = false := by decide
  exact hall ⟨n, h⟩

theorem digits_ascii {bs : Bytes} {b : UInt8} (h : b ∈ digits bs) :
    b < 0x80 ∧ Blank.isBlank (Char.ofNat b.toNat) = false := by
  obtain ⟨c, -, hb⟩ := List.mem_flatMap.1 h
  have hc := c.toNat_lt
  rw [List.mem_cons, List.mem_singleton] at hb
  rcases hb with rfl | rfl
  · exact digit_ascii (by omega)
  · exact digit_ascii (by omega)

theorem ofText_encode (bs : Bytes) : Bytes.ofText (encode bs) = digits bs :=
  Bytes.ofText_ascii fun _ hb => (digits_ascii hb).1

theorem trim_encode (bs : Bytes) : Blank.trim (encode bs) = encode bs := by
  apply Blank.trim_of_forall
  intro c hc
  rw [encode, String.toList_ofList] at hc
  obtain ⟨b, hb, rfl⟩ := List.mem_map.1 hc
  exact (digits_ascii hb).2

end Hex

end HeaderPeer
