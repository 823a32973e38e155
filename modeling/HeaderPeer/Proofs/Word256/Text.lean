/-
  HeaderPeer.Proofs.Word256.Text — the text of a 256-bit number.

  A text is read as a number in three steps: a mark is taken off, the bytes that are left are counted
  and then read as digits, and the order of the bytes is turned round.  What all this comes to is said
  of the characters and of the number alone: after the mark there are sixty-four hexadecimal digits,
  and they denote the number, the most significant digit first.  So equal lengths make the order of
  the texts the order of the numbers.

  Main statements:
    * `parse_eq_ok_iff` — which texts are read as which number.
    * `compare_text` — the order of texts is the order of numbers.
    * `text_form` — all of this of every text and every number, and what other texts are refused for.
-/
import HeaderPeer.Proofs.Bytes
import HeaderPeer.Proofs.Text.Hex
import HeaderPeer.Proofs.Word256.Limbs
import HeaderPeer.Word256.Text
import Mathlib.Data.Nat.Digits.Lemmas

namespace HeaderPeer.Word256

/-! ## §1. The mark -/

/-- Characters without one hexadecimal mark at their front. -/
def unmarked : List Char → List Char
  | '0' :: 'x' :: rest => rest
  | '0' :: 'X' :: rest => rest
  | cs => cs

/-- The characters of a text behind the mark, if there is one. -/
def body (s : String) : List Char := unmarked s.toList

/-- How many bytes these characters take. -/
def bodySize (s : String) : Nat := (String.ofList (body s)).utf8ByteSize

/-- Taking the mark off the bytes of a text is taking it off its characters. -/
theorem dropMark_utf8 (cs : List Char) :
    dropMark (cs.flatMap String.utf8EncodeChar)
      = (unmarked cs).flatMap String.utf8EncodeChar := by
  fun_cases unmarked cs with
  | case1 rest => rfl
  | case2 rest => rfl
  | case3 cs hlower hupper =>
    -- a mark among the bytes would be one among the characters
    unfold dropMark
    split
    · next rest hbytes =>
      obtain ⟨cs', rfl, hbytes'⟩ := Bytes.eq_cons_of_utf8 (by decide) hbytes
      obtain ⟨cs'', rfl, -⟩ := Bytes.eq_cons_of_utf8 (by decide) hbytes'
      exact absurd rfl (hlower cs'')
    · next rest hbytes =>
      obtain ⟨cs', rfl, hbytes'⟩ := Bytes.eq_cons_of_utf8 (by decide) hbytes
      obtain ⟨cs'', rfl, -⟩ := Bytes.eq_cons_of_utf8 (by decide) hbytes'
      exact absurd rfl (hupper cs'')
    · rfl

theorem dropMark_ofText (s : String) :
    dropMark (Bytes.ofText s) = (body s).flatMap String.utf8EncodeChar := by
  rw [Bytes.ofText_eq, dropMark_utf8, body]

theorem length_dropMark (s : String) : (dropMark (Bytes.ofText s)).length = bodySize s := by
  rw [dropMark_ofText, bodySize, ← Bytes.length_ofText, Bytes.ofText_eq, String.toList_ofList]

/-! ## §2. The digits of a number -/

/-- The sixty-four hexadecimal digits of a number, most significant first. -/
def digits (w : Word256) : List Nat := Hex.nibbles w.toBytes.reverse

theorem length_digits (w : Word256) : (digits w).length = 64 := by
  rw [digits, Hex.length_nibbles, List.length_reverse, length_toBytes]

theorem lt_of_mem_digits {w : Word256} {d : Nat} (h : d ∈ digits w) : d < 16 :=
  Hex.lt_of_mem_nibbles h

theorem toList_text (w : Word256) : w.text.toList = (digits w).map Nat.digitChar :=
  Hex.toList_encode _

/-- Two digits a byte denote what the bytes denote. -/
theorem ofDigits_nibbles (bs : Bytes) :
    Nat.ofDigits 16 (Hex.nibbles bs).reverse = bs.toNatBE := by
  induction bs with
  | nil => rfl
  | cons b bs ih =>
    have hbyte : b.toNat = 16 * (b.toNat / 16) + b.toNat % 16 := (Nat.div_add_mod _ _).symm
    have hunit : 16 ^ (2 * bs.length) = 256 ^ bs.length := by rw [Nat.pow_mul]
    have hsingle : Bytes.toNatLE [b] = b.toNat := rfl
    rw [Hex.nibbles_cons, Nat.ofDigits_reverse_cons, Nat.ofDigits_reverse_cons, ih,
      List.length_cons, Hex.length_nibbles, Nat.pow_succ, hunit, Bytes.toNatBE, Bytes.toNatBE,
      List.reverse_cons, Bytes.toNatLE_append, List.length_reverse, hsingle]
    conv => rhs; rw [hbyte]
    rw [Nat.mul_add, Nat.mul_assoc, Nat.add_assoc, Nat.add_comm (_ * (b.toNat % 16))]

/-- The digits of a number denote it. -/
theorem ofDigits_digits (w : Word256) : Nat.ofDigits 16 (digits w).reverse = w.toNat := by
  rw [digits, ofDigits_nibbles, Bytes.toNatBE, List.reverse_reverse, toBytes,
    Bytes.toNatLE_ofNatLE, Nat.mod_eq_of_lt]
  exact w.isLt

/-- Sixty-four digits that denote a number are the digits of it. -/
theorem eq_digits {w : Word256} {ds : List Nat} (hlength : ds.length = 64)
    (hlt : ∀ d ∈ ds, d < 16) (hvalue : w.toNat = Nat.ofDigits 16 ds.reverse) : ds = digits w := by
  apply List.reverse_injective
  refine Nat.ofDigits_inj_of_len_eq (b := 16) (by decide) ?_ ?_ ?_ ?_
  · rw [List.length_reverse, List.length_reverse, hlength, length_digits]
  · exact fun d hd => hlt d (List.mem_reverse.1 hd)
  · exact fun d hd => lt_of_mem_digits (List.mem_reverse.1 hd)
  · rw [← hvalue, ofDigits_digits]

/-! ## §3. Reading -/

/-- The reading of a text is that of the bytes behind its mark. -/
theorem parse_eq (s : String) :
    parse s =
      if bodySize s ≠ 64 then .error (.length 64 (bodySize s))
      else
        match Hex.decode ((body s).flatMap String.utf8EncodeChar) with
        | .ok bs => ofBytes? bs.reverse
        | .error e => .error (.hex e) := by
  rw [← length_dropMark, ← dropMark_ofText]
  rfl

/-- A text is read as a number exactly if the digits of the number are written in it. -/
theorem parse_eq_ok_iff_digits {s : String} {w : Word256} :
    parse s = .ok w ↔ List.Forall₂ Hex.Writes (body s) (digits w) := by
  rw [parse_eq, ← Hex.reads_utf8_iff]
  constructor
  · intro h
    split at h
    · cases h
    · split at h
      · next bs hdecode =>
        unfold ofBytes? at h
        split at h
        · next hlength =>
          cases h
          rw [digits, toBytes_ofBytes hlength, List.reverse_reverse]
          exact Hex.decode_eq_ok_iff.1 hdecode
        · cases h
      · cases h
  · intro h
    have hsize : bodySize s = 64 := by
      rw [← length_dropMark, dropMark_ofText, List.Forall₂.length_eq h, length_digits]
    have hlength : w.toBytes.reverse.reverse.length = 32 := by
      rw [List.reverse_reverse, length_toBytes]
    rw [if_neg (not_not.2 hsize), Hex.decode_eq_ok_iff.2 h]
    simp only [ofBytes?, if_pos hlength]
    rw [List.reverse_reverse, ofBytes_toBytes]

/-- **A text is read as a number exactly if sixty-four digits stand behind its mark and denote that
number.** -/
theorem parse_eq_ok_iff {s : String} {w : Word256} :
    parse s = .ok w ↔
      ∃ ds, ds.length = 64 ∧ List.Forall₂ Hex.Writes (body s) ds
        ∧ w.toNat = Nat.ofDigits 16 ds.reverse := by
  rw [parse_eq_ok_iff_digits]
  constructor
  · intro h
    exact ⟨digits w, length_digits w, h, (ofDigits_digits w).symm⟩
  · rintro ⟨ds, hlength, hwrites, hvalue⟩
    rw [← eq_digits hlength (Hex.lt_of_writes hwrites) hvalue]
    exact hwrites

/-- Sixty-four digits always denote a number of 256 bits. -/
theorem exists_parse_eq_ok_iff {s : String} :
    (∃ w, parse s = .ok w) ↔ ∃ ds, ds.length = 64 ∧ List.Forall₂ Hex.Writes (body s) ds := by
  constructor
  · rintro ⟨w, h⟩
    obtain ⟨ds, hlength, hwrites, -⟩ := parse_eq_ok_iff.1 h
    exact ⟨ds, hlength, hwrites⟩
  · rintro ⟨ds, hlength, hwrites⟩
    have hbound : Nat.ofDigits 16 ds.reverse < 16 ^ ds.reverse.length :=
      Nat.ofDigits_lt_base_pow_length (by decide) fun d hd =>
        Hex.lt_of_writes hwrites d (List.mem_reverse.1 hd)
    rw [List.length_reverse, hlength] at hbound
    refine ⟨BitVec.ofNat 256 (Nat.ofDigits 16 ds.reverse), parse_eq_ok_iff.2 ⟨ds, hlength, hwrites, ?_⟩⟩
    rw [BitVec.toNat_ofNat]
    exact Nat.mod_eq_of_lt (Nat.lt_of_lt_of_eq hbound (by decide))

/-- A text is read as a number exactly if behind its mark stands the number's own text, in either
case. -/
theorem parse_eq_ok_iff_text {s : String} {w : Word256} :
    parse s = .ok w ↔ (body s).map Char.toLower = w.text.toList := by
  rw [parse_eq_ok_iff_digits, Hex.forall₂_writes_iff, toList_text]
  exact and_iff_right fun d hd => lt_of_mem_digits hd

/-! ## §4. Refusals -/

/-- The bytes are counted before they are read. -/
theorem parse_cases (s : String) :
    (bodySize s ≠ 64 ∧ parse s = .error (.length 64 (bodySize s)))
      ∨ (bodySize s = 64
        ∧ ((∃ w, parse s = .ok w) ∨ ∃ cause, parse s = .error (.hex cause))) := by
  rw [parse_eq]
  by_cases hsize : bodySize s = 64
  · refine .inr ⟨hsize, ?_⟩
    rw [if_neg (not_not.2 hsize)]
    cases hdecode : Hex.decode ((body s).flatMap String.utf8EncodeChar) with
    | error e => exact .inr ⟨e, rfl⟩
    | ok bs =>
      -- sixty-four digits are thirty-two bytes
      have hlength : bs.reverse.length = 32 := by
        have htwo := List.Forall₂.length_eq (Hex.decode_eq_ok_iff.1 hdecode)
        rw [Hex.length_nibbles, ← dropMark_ofText, length_dropMark, hsize] at htwo
        rw [List.length_reverse]
        omega
      refine .inl ⟨ofBytes bs.reverse, ?_⟩
      simp only [ofBytes?, if_pos hlength]
  · exact .inl ⟨hsize, if_pos hsize⟩

/-- A text is refused for its length exactly if it has the wrong one. -/
theorem parse_eq_length_iff {s : String} {expected actual : Nat} :
    parse s = .error (.length expected actual) ↔
      expected = 64 ∧ actual = bodySize s ∧ bodySize s ≠ 64 := by
  rcases parse_cases s with ⟨hsize, h⟩ | ⟨hsize, ⟨w, h⟩ | ⟨cause, h⟩⟩
  · rw [h, Except.error.injEq, ParseError.length.injEq]
    constructor
    · rintro ⟨rfl, rfl⟩
      exact ⟨rfl, rfl, hsize⟩
    · rintro ⟨rfl, rfl, -⟩
      exact ⟨rfl, rfl⟩
  · simp [h, hsize]
  · simp [h, hsize]

/-- A text of the right length is refused exactly if it does not consist of digits. -/
theorem exists_parse_eq_hex_iff {s : String} :
    (∃ cause, parse s = .error (.hex cause)) ↔
      bodySize s = 64 ∧ ¬ ∃ ds, List.Forall₂ Hex.Writes (body s) ds := by
  have hdigits : (∃ w, parse s = .ok w) ↔
      bodySize s = 64 ∧ ∃ ds, List.Forall₂ Hex.Writes (body s) ds := by
    rw [exists_parse_eq_ok_iff]
    have hlength : ∀ {ds}, List.Forall₂ Hex.Writes (body s) ds → ds.length = bodySize s := by
      intro ds hwrites
      rw [← length_dropMark, dropMark_ofText,
        List.Forall₂.length_eq (Hex.reads_utf8_iff.2 hwrites)]
    constructor
    · rintro ⟨ds, h, hwrites⟩
      exact ⟨(hlength hwrites).symm.trans h, ds, hwrites⟩
    · rintro ⟨hsize, ds, hwrites⟩
      exact ⟨ds, (hlength hwrites).trans hsize, hwrites⟩
  rcases parse_cases s with ⟨hsize, h⟩ | ⟨hsize, ⟨w, h⟩ | ⟨cause, h⟩⟩
  · simp [h, hsize]
  · have hsome := (hdigits.1 ⟨w, h⟩).2
    simp [h, hsize, hsome]
  · have hnone : ¬ ∃ ds, List.Forall₂ Hex.Writes (body s) ds := by
      intro hsome
      obtain ⟨w, hw⟩ := hdigits.2 ⟨hsize, hsome⟩
      cases h.symm.trans hw
    exact ⟨fun _ => ⟨hsize, hnone⟩, fun _ => ⟨cause, h⟩⟩

/-! ## §5. Writing and reading back -/

theorem unmarked_of_forall {cs : List Char} (h : ∀ c ∈ cs, c.toLower ≠ 'x') : unmarked cs = cs := by
  fun_cases unmarked cs with
  | case1 rest => exact absurd rfl (h 'x' (by simp))
  | case2 rest => exact absurd (by decide) (h 'X' (by simp))
  | case3 => rfl

/-- A number's text is no mark. -/
theorem ne_of_mem_text {w : Word256} {c : Char} (h : c ∈ w.text.toList) : c ≠ 'x' := by
  have hall : ∀ d : Fin 16, Nat.digitChar d.val ≠ 'x' := by decide
  rw [toList_text] at h
  obtain ⟨d, hd, rfl⟩ := List.mem_map.1 h
  exact hall ⟨d, lt_of_mem_digits hd⟩

/-- **What is shown of a number is read as the number**, behind either mark or none and in any mixture
of cases. -/
theorem parse_mark_append {w : Word256} {mark shown : String} (hmark : mark ∈ ["", "0x", "0X"])
    (hshown : shown.toList.map Char.toLower = w.text.toList) :
    parse (mark ++ shown) = .ok w := by
  have hbody : body (mark ++ shown) = shown.toList := by
    rw [body, String.toList_append]
    simp only [List.mem_cons, List.not_mem_nil, or_false] at hmark
    rcases hmark with rfl | rfl | rfl
    · refine unmarked_of_forall fun c hc => ne_of_mem_text (w := w) ?_
      rw [← hshown]
      exact List.mem_map_of_mem hc
    · rfl
    · rfl
  rw [parse_eq_ok_iff_text, hbody, hshown]

theorem toLower_text (w : Word256) : w.text.toList.map Char.toLower = w.text.toList := by
  rw [toList_text, List.map_map]
  refine List.map_congr_left fun d hd => ?_
  exact (Hex.writes_iff.1 ⟨lt_of_mem_digits hd, .inl rfl⟩).2

theorem parse_text (w : Word256) : parse w.text = .ok w := by
  have h : parse ("" ++ w.text) = .ok w := parse_mark_append (by simp) (toLower_text w)
  rwa [String.empty_append] at h

/-! ## §6. Order -/

/-- Of digit strings of one length the order of the characters is that of the numbers.  The induction
takes off the most significant digits, and they decide unless they are equal. -/
theorem map_digitChar_lt_iff {ds es : List Nat} (hlength : ds.length = es.length)
    (hds : ∀ d ∈ ds, d < 16) (hes : ∀ e ∈ es, e < 16) :
    ds.map Nat.digitChar < es.map Nat.digitChar ↔
      Nat.ofDigits 16 ds.reverse < Nat.ofDigits 16 es.reverse := by
  induction ds generalizing es with
  | nil =>
    rw [List.length_eq_zero_iff.1 hlength.symm]
    simp
  | cons d ds ih =>
    cases es with
    | nil => cases hlength
    | cons e es =>
      obtain ⟨hd, hds⟩ := List.forall_mem_cons.1 hds
      obtain ⟨he, hes⟩ := List.forall_mem_cons.1 hes
      have hlength : ds.length = es.length := Nat.succ.inj hlength
      have hlow : Nat.ofDigits 16 ds.reverse < 16 ^ es.length := by
        rw [← hlength, ← List.length_reverse]
        exact Nat.ofDigits_lt_base_pow_length (by decide) fun d hd => hds d (List.mem_reverse.1 hd)
      have hlow' : Nat.ofDigits 16 es.reverse < 16 ^ es.length := by
        rw [← List.length_reverse]
        exact Nat.ofDigits_lt_base_pow_length (by decide) fun e he => hes e (List.mem_reverse.1 he)
      have hchars : ∀ d e : Fin 16, (Nat.digitChar d.val < Nat.digitChar e.val ↔ d.val < e.val)
          ∧ (Nat.digitChar d.val = Nat.digitChar e.val ↔ d.val = e.val) := by decide
      have hfirst := hchars ⟨d, hd⟩ ⟨e, he⟩
      rw [List.map_cons, List.map_cons, List.cons_lt_cons_iff, hfirst.1, hfirst.2,
        ih hlength hds hes, Nat.ofDigits_reverse_cons, Nat.ofDigits_reverse_cons, hlength,
        Nat.add_comm, Nat.mul_comm, Nat.add_comm (Nat.ofDigits 16 es.reverse),
        Nat.mul_comm (16 ^ es.length) e, ← Nat.compare_eq_lt (a := _ + _),
        compare_of_digits hlow hlow', Ordering.then_eq_lt, Nat.compare_eq_lt, Nat.compare_eq_lt,
        Nat.compare_eq_eq]

theorem text_lt_iff {v w : Word256} : v.text < w.text ↔ v < w := by
  show v.text.toList < w.text.toList ↔ v < w
  rw [toList_text, toList_text, map_digitChar_lt_iff ((length_digits v).trans (length_digits w).symm)
    (fun _ => lt_of_mem_digits) (fun _ => lt_of_mem_digits), ofDigits_digits, ofDigits_digits,
    BitVec.lt_def]

theorem text_inj {v w : Word256} : v.text = w.text ↔ v = w := by
  constructor
  · intro h
    have hv := parse_text v
    rw [h, parse_text w] at hv
    exact (Except.ok.inj hv).symm
  · rintro rfl
    rfl

theorem compare_string (s t : String) :
    compare s t = if s < t then .lt else if s = t then .eq else .gt := rfl

theorem compare_word (v w : Word256) :
    compare v w = if v < w then .lt else if v = w then .eq else .gt := rfl

/-- **The order of texts is the order of numbers.** -/
theorem compare_text (v w : Word256) : compare v.text w.text = compare v w := by
  rw [compare_string, compare_word]
  simp only [text_lt_iff, text_inj]

/-- Comparing limb by limb is comparing words. -/
theorem compareLimbs_eq_compare (v w : Word256) : compareLimbs v w = compare v w := by
  rw [compareLimbs_eq, compare_word]
  rcases Nat.lt_trichotomy v.toNat w.toNat with hlt | heq | hgt
  · rw [Nat.compare_eq_lt.2 hlt, if_pos (BitVec.lt_def.2 hlt)]
  · have hsame : v = w := BitVec.eq_of_toNat_eq heq
    rw [Nat.compare_eq_eq.2 heq, if_neg (hsame ▸ BitVec.lt_irrefl v), if_pos hsame]
  · have hother : v ≠ w := fun hsame => Nat.lt_irrefl _ (hsame ▸ hgt)
    have hnot : ¬ v < w := fun hlt => Nat.lt_asymm hgt (BitVec.lt_def.1 hlt)
    rw [Nat.compare_eq_gt.2 hgt, if_neg hnot, if_neg hother]

/-! ## §7. Texts and numbers -/

/-- What a text is read as. -/
structure ReadsAs (s : String) : Prop where
  /-- Sixty-four digits behind the mark are needed, and enough. -/
  accepted : (∃ w, parse s = .ok w) ↔
    ∃ ds, ds.length = 64 ∧ List.Forall₂ Hex.Writes (body s) ds
  /-- The number is the one that the digits denote, most significant first. -/
  value : ∀ {w}, parse s = .ok w ↔
    ∃ ds, ds.length = 64 ∧ List.Forall₂ Hex.Writes (body s) ds
      ∧ w.toNat = Nat.ofDigits 16 ds.reverse
  /-- It is shown by the same digits in lower case. -/
  shown : ∀ {w}, parse s = .ok w → w.text.toList = (body s).map Char.toLower
  length : ∀ {expected actual}, parse s = .error (.length expected actual) ↔
    expected = 64 ∧ actual = bodySize s ∧ bodySize s ≠ 64
  hex : (∃ cause, parse s = .error (.hex cause)) ↔
    bodySize s = 64 ∧ ¬ ∃ ds, List.Forall₂ Hex.Writes (body s) ds

theorem readsAs (s : String) : ReadsAs s where
  accepted := exists_parse_eq_ok_iff
  value := parse_eq_ok_iff
  shown h := (parse_eq_ok_iff_text.1 h).symm
  length := parse_eq_length_iff
  hex := exists_parse_eq_hex_iff

/-- **Texts and numbers.**  A text is read as the number that its sixty-four digits denote, whatever
their case and with one mark in front or none; it is refused for its length if that is wrong, and
else for what is no digit.  What is shown of a number is read as the number, and numbers stand in the
order of their texts. -/
theorem text_form :
    (∀ s, ReadsAs s)
      ∧ (∀ (w : Word256) (mark shown : String), mark ∈ ["", "0x", "0X"] →
          shown.toList.map Char.toLower = w.text.toList → parse (mark ++ shown) = .ok w)
      ∧ ∀ v w : Word256, compare v w = compare v.text w.text
          ∧ compareLimbs v w = compare v.text w.text := by
  refine ⟨readsAs, fun _ _ _ => parse_mark_append, ?_⟩
  intro v w
  rw [compareLimbs_eq_compare, compare_text]
  exact ⟨rfl, rfl⟩

/-- The largest number, written in capitals behind a mark. -/
theorem capitals_read :
    (String.ofList (List.replicate 64 'F')).toList.map Char.toLower
        = (text (BitVec.allOnes 256)).toList
      ∧ parse ("0X" ++ String.ofList (List.replicate 64 'F')) = .ok (BitVec.allOnes 256) := by
  have hshown : (String.ofList (List.replicate 64 'F')).toList.map Char.toLower
      = (text (BitVec.allOnes 256)).toList := by
    rw [String.toList_ofList, toList_text]
    decide +kernel
  exact ⟨hshown, text_form.2.1 _ "0X" _ (by decide) hshown⟩

end HeaderPeer.Word256
