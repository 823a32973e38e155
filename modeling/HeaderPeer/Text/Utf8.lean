/-
  HeaderPeer.Text.Utf8 — text from bytes that need not be UTF-8.

  Bytes that form no character are replaced.  As long as they could be the beginning of one they are
  taken together and replaced by a single mark, so each mark stands for a longest such beginning or
  for a single byte that begins nothing.
-/
import HeaderPeer.Bytes

namespace HeaderPeer.Utf8

/-- The mark for bytes that form no character. -/
def mark : Char := '\uFFFD'

/-- What a leading byte calls for: how many bytes follow, between which bounds the first of them
lies, and the bits that it contributes itself. -/
structure Lead where
  following : Nat
  low : UInt8
  high : UInt8
  bits : Nat

/-- The byte that leads a character of more than one byte.  The bounds keep out longer forms than
needed, surrogates and numbers above the last code point. -/
def lead? (b : UInt8) : Option Lead :=
  let bits (mask : UInt8) : Nat := (b &&& mask).toNat
  if 0xc2 ≤ b ∧ b ≤ 0xdf then some ⟨1, 0x80, 0xbf, bits 0x1f⟩
  else if b = 0xe0 then some ⟨2, 0xa0, 0xbf, bits 0x0f⟩
  else if b = 0xed then some ⟨2, 0x80, 0x9f, bits 0x0f⟩
  else if 0xe1 ≤ b ∧ b ≤ 0xef then some ⟨2, 0x80, 0xbf, bits 0x0f⟩
  else if b = 0xf0 then some ⟨3, 0x90, 0xbf, bits 0x07⟩
  else if 0xf1 ≤ b ∧ b ≤ 0xf3 then some ⟨3, 0x80, 0xbf, bits 0x07⟩
  else if b = 0xf4 then some ⟨3, 0x80, 0x8f, bits 0x07⟩
  else none

/-- Whether a byte can stand in a character behind the first two. -/
def continues (b : UInt8) : Bool := 0x80 ≤ b ∧ b ≤ 0xbf

/-- The bytes of `rest` that go on with the character begun by `lead`. -/
def continuation (lead : Lead) : Bytes → Bytes
  | [] => []
  | second :: rest =>
    if lead.low ≤ second ∧ second ≤ lead.high then
      second :: (rest.take (lead.following - 1)).takeWhile continues
    else []

/-- The character begun by `lead` and gone on with by `tail`. -/
def character (lead : Lead) (tail : Bytes) : Char :=
  Char.ofNat (tail.foldl (fun n b => n * 64 + (b &&& 0x3f).toNat) lead.bits)

/-- The characters of a byte string, with a mark for bytes that form none. -/
def decode : Bytes → List Char
  | [] => []
  | b :: rest =>
    if b < 0x80 then Char.ofNat b.toNat :: decode rest
    else
      match lead? b with
      | none => mark :: decode rest
      | some lead =>
        -- a character that breaks off leaves one mark for all the bytes that belong to it
        let tail := continuation lead rest
        let c := if tail.length = lead.following then character lead tail else mark
        c :: decode (rest.drop tail.length)
termination_by bs => bs.length
decreasing_by
  all_goals simp only [List.length_cons, List.length_drop]
  all_goals omega

/-- The text of a byte string, with a mark for bytes that form no character. -/
def text (bs : Bytes) : String := String.ofList (decode bs)

/-- ASCII bytes stand for themselves. -/
theorem decode_ascii (bs : Bytes) (h : ∀ b ∈ bs, b < 0x80) :
    decode bs = bs.map fun b => Char.ofNat b.toNat := by
  induction bs with
  | nil => simp [decode]
  | cons b rest ih =>
    have hb := h b (by simp)
    rw [decode, if_pos hb, ih fun c hc => h c (by simp [hc])]
    rfl

end HeaderPeer.Utf8
