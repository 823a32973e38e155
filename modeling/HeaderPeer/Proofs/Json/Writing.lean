/-
  HeaderPeer.Proofs.Json.Writing — what is written is well formed.

  Strings, integers and laid-out objects as they are written follow the grammar, and so they are
  read back as what was written.  Of a string as it is written no more is said than that it means
  the text, for the reader tells a character from a unit and the text does not.

  Main statements:
    * `exists_spells_escape` — every text can be put between quotation marks.
    * `int?_of_isInt` — every integer within the bounds is read back.
    * `denotes_layOut` — an object that is laid out is that object.
-/
import HeaderPeer.Proofs.Json.Reading

namespace HeaderPeer.Json

/-! ## §1. Strings -/

/-- Any character can stand in a string: as itself, by a short escape, or as a unit. -/
theorem exists_spells_append (c : Char) {ps : List Piece} {quoted : List Char}
    (h : Spells ps quoted) :
    ∃ p, Spells (p :: ps) (escape c ++ quoted)
      ∧ ∀ {cs}, Means ps cs → Means (p :: ps) (c :: cs) := by
  have hshort : ∀ letter, (letter, c) ∈ escapes →
      ∃ p, Spells (p :: ps) (['\\', letter] ++ quoted)
        ∧ ∀ {cs}, Means ps cs → Means (p :: ps) (c :: cs) := by
    exact fun letter hmem => ⟨.char c, .short hmem h, .char⟩
  unfold escape
  split_ifs with hmark hescape hback hfeed hline hreturn htab hcontrol
  · exact hshort '"' (by rw [hmark]; decide)
  · exact hshort '\\' (by rw [hescape]; decide)
  · exact hshort 'b' (by rw [hback]; decide)
  · exact hshort 'f' (by rw [hfeed]; decide)
  · exact hshort 'n' (by rw [hline]; decide)
  · exact hshort 'r' (by rw [hreturn]; decide)
  · exact hshort 't' (by rw [htab]; decide)
  · -- two zeros, and the two digits of the character's number
    have hzero : Hex.Writes '0' 0 := ⟨by decide, .inl rfl⟩
    have hhigh : Hex.Writes (Nat.digitChar (c.toNat / 16)) (c.toNat / 16) := ⟨by omega, .inl rfl⟩
    have hlow : Hex.Writes (Nat.digitChar (c.toNat % 16)) (c.toNat % 16) := ⟨by omega, .inl rfl⟩
    have hnumber : 0 * 0x1000 + 0 * 0x100 + c.toNat / 16 * 0x10 + c.toNat % 16 = c.toNat := by
      omega
    have hspells := Spells.unit hzero hzero hhigh hlow h
    rw [hnumber] at hspells
    exact ⟨.unit c.toNat, hspells, .unit (by omega)⟩
  · exact ⟨.char c, .plain hmark hescape (Nat.not_lt.1 hcontrol) h, .char⟩

/-- **What is put between quotation marks is the text.** -/
theorem exists_spells_escape (cs : List Char) :
    ∃ ps, Spells ps (cs.flatMap escape) ∧ Means ps cs := by
  induction cs with
  | nil => exact ⟨[], .nil, .nil⟩
  | cons c cs ih =>
    obtain ⟨ps, hspells, hmeans⟩ := ih
    obtain ⟨p, hspells', hmeans'⟩ := exists_spells_append c hspells
    exact ⟨p :: ps, hspells', hmeans' hmeans⟩

theorem exists_writes_quote (t : String) : ∃ v, Writes v (quote t) ∧ IsText v t := by
  obtain ⟨ps, hspells, hmeans⟩ := exists_spells_escape t.toList
  exact ⟨.string ps, .string hspells, ps, rfl, hmeans⟩

theorem string?_of_isText {v : Json} {t : String} (h : IsText v t) : v.string? = some t := by
  obtain ⟨ps, rfl, hmeans⟩ := h
  exact text?_of_means hmeans

/-! ## §2. Integers -/

theorem head?_toDigits_ne {n : Nat} (h : 0 < n) : (Nat.toDigits 10 n).head? ≠ some '0' := by
  induction n using Nat.strongRecOn with
  | ind n ih =>
    rw [Nat.toDigits_eq_if (by decide)]
    split
    · intro hzero
      exact Nat.ne_of_gt h (Nat.digitChar_eq_zero.1 (Option.some.inj hzero))
    · rw [List.head?_append_of_ne_nil _ Nat.toDigits_ne_nil]
      exact ih (n / 10) (by omega) (by omega)

theorem areWhole_toDigits (n : Nat) : AreWhole (Nat.toDigits 10 n) := by
  refine ⟨⟨Nat.toDigits_ne_nil,
    fun c hc => Nat.isDigit_of_mem_toDigits (by decide) (by decide) hc⟩, fun hzero => ?_⟩
  rcases Nat.eq_zero_or_pos n with rfl | hpos
  · rfl
  · exact absurd hzero (head?_toDigits_ne hpos)

theorem natUpTo?_append_digit {limit n d : Nat} {ds : List Char} (hd : d < 10)
    (hlimit : 10 * n + d ≤ limit) (h : natUpTo? limit ds = some n) :
    natUpTo? limit (ds ++ [Nat.digitChar d]) = some (10 * n + d) := by
  rw [natUpTo?, List.foldlM_append]
  rw [natUpTo?] at h
  rw [h]
  simp [Nat.toNat_digitChar_sub_48_of_lt_ten hd, hlimit]

/-- Digits are read up to the limit: what has been read on the way is never beyond it. -/
theorem natUpTo?_toDigits {limit n : Nat} (h : n ≤ limit) :
    natUpTo? limit (Nat.toDigits 10 n) = some n := by
  induction n using Nat.strongRecOn with
  | ind n ih =>
    rw [Nat.toDigits_eq_if (by decide)]
    split
    · next hsmall =>
      have hnone : natUpTo? limit [] = some 0 := rfl
      simpa using natUpTo?_append_digit hsmall (by omega) hnone
    · next hlarge =>
      have hsplit : 10 * (n / 10) + n % 10 = n := Nat.div_add_mod n 10
      have htenth := ih (n / 10) (by omega) (by omega)
      have hdigit := natUpTo?_append_digit (Nat.mod_lt n (by decide)) (by omega) htenth
      rwa [hsplit] at hdigit

theorem intUpTo?_of_natAbs_le {limit : Nat} {i : Int} (h : i.natAbs ≤ limit) :
    Number.intUpTo? limit ⟨decide (i < 0), Nat.toDigits 10 i.natAbs, true⟩ = some i := by
  simp only [Number.intUpTo?, natUpTo?_toDigits h, Option.bind_eq_bind, Option.bind_some]
  by_cases hneg : i < 0
  · have hsize : i.natAbs ≠ 0 := by omega
    have hvalue : -(i.natAbs : Int) = i := by omega
    simp only [hneg, hsize, hvalue, decide_true, decide_false, Bool.not_true, Bool.and_false,
      Bool.or_self, Bool.false_eq_true, if_false, if_true]
  · have hvalue : (i.natAbs : Int) = i := by omega
    simp only [hneg, hvalue, decide_false, Bool.not_true, Bool.false_and, Bool.or_self,
      Bool.false_eq_true, if_false]

/-- **An integer between the bounds is read as that integer.** -/
theorem int?_of_isInt {low high i : Int} {v : Json} (h : IsInt v i) (hlow : low ≤ i)
    (hhigh : i ≤ high) : v.int? low high = some i := by
  have hsize : i.natAbs ≤ max low.natAbs high.natAbs := by omega
  rw [h, int?, intUpTo?_of_natAbs_le hsize]
  simp [hlow, hhigh]

theorem toList_toString (i : Int) :
    (toString i).toList = (if i < 0 then ['-'] else []) ++ Nat.toDigits 10 i.natAbs := by
  cases i with
  | ofNat n =>
    show (Nat.repr n).toList = _
    rw [Nat.toList_repr]
    rfl
  | negSucc n =>
    show ("-" ++ Nat.repr (n + 1)).toList = _
    rw [String.toList_append, Nat.toList_repr, if_pos (Int.negSucc_lt_zero n)]
    rfl

theorem exists_writes_int (i : Int) : ∃ v, Writes v (toString i).toList ∧ IsInt v i := by
  refine ⟨_, .number ?_, rfl⟩
  have h := @WritesNumber.parts (decide (i < 0)) _ _ _ _ _ (areWhole_toDigits i.natAbs) .none .none
  rw [toList_toString]
  simpa using h

/-! ## §3. Objects -/

/-- A member as it is laid out, behind what goes before it on its line. -/
def line (m : String × List Char) : List Char :=
  ['\n', ' ', ' '] ++ quote m.1 ++ [':', ' '] ++ m.2

theorem layOut_eq (members : List (String × List Char)) :
    layOut members = '\x7b' :: (List.intercalate [','] (members.map line) ++ ['\n', '\x7d']) :=
  rfl

/-- Whether a name and the text of a value write a member. -/
def WritesMember (written : String × List Char) (m : List Piece × Json) : Prop :=
  Spells m.1 (written.1.toList.flatMap escape) ∧ Writes m.2 written.2

theorem WritesMember.member {written : String × List Char} {m : List Piece × Json}
    (h : WritesMember written m) :
    Member Writes m (quote written.1 ++ [':', ' '] ++ written.2) := by
  have hnone : AreBlanks [] := fun c hc => nomatch hc
  have hspace : AreBlanks [' '] := by simp [AreBlanks]
  have hmember := Member.pair h.1 hnone hspace h.2
  simpa [quote] using hmember

/-- Lines with commas between them are a row. -/
theorem row_of_lines {m : String × List Char} {written : List (String × List Char)}
    {p : List Piece × Json} {ms : List (List Piece × Json)} (hfirst : WritesMember m p)
    (hrest : List.Forall₂ WritesMember written ms) :
    Row (Member Writes) (p :: ms)
      (List.intercalate [','] ((m :: written).map line) ++ ['\n']) := by
  have hindent : AreBlanks ['\n', ' ', ' '] := by simp [AreBlanks]
  have hbreak : AreBlanks ['\n'] := by simp [AreBlanks]
  have hnone : AreBlanks [] := fun c hc => nomatch hc
  induction hrest generalizing m p with
  | nil =>
    have hrow := Row.last hindent hfirst.member hbreak
    simpa [line] using hrow
  | cons hnext _ ih =>
    have hrow := Row.cons hindent hfirst.member hnone (ih hnext)
    simpa [line] using hrow

/-- **An object that is laid out is the object of its members.** -/
theorem denotes_layOut {m : String × List Char} {written : List (String × List Char)}
    {ms : List (List Piece × Json)} (h : List.Forall₂ WritesMember (m :: written) ms) :
    Denotes (String.ofList (layOut (m :: written))) (.object ms) := by
  have hnone : AreBlanks [] := fun c hc => nomatch hc
  cases h with
  | cons hfirst hrest =>
    refine ⟨[], _, [], hnone, .object (row_of_lines hfirst hrest), hnone, ?_⟩
    rw [String.toList_ofList, layOut_eq]
    simp

end HeaderPeer.Json
