/-
  HeaderPeer.Proofs.Json.Accepted — only the texts of the grammar are read.

  The converse of reading what is written.  What a reader takes off the front of a text is a piece
  of the grammar, whatever follows it, so here nothing has to be said about the rest.  Together the
  two directions make the grammar exactly what is accepted, and no text denotes two values.

  Main statements:
    * `readString_sound`, `readNumber_sound`, `value_sound` — what is taken was written.
    * `parse_eq_some_iff` — which texts are read as which values.
    * `Denotes.unique` — a text denotes one value at most.
-/
import HeaderPeer.Proofs.Json.Reading
import Mathlib.Data.List.TakeWhile

namespace HeaderPeer.Json

/-! ## §1. Strings -/

theorem writes_of_hexValue? {c : Char} {n : Nat} (h : hexValue? c = some n) : Hex.Writes c n := by
  have hall : ∀ k : Fin 128, ∀ n ∈ hexValue? (Char.ofNat k.val),
      n < 16 ∧ (Char.ofNat k.val = Nat.digitChar n
        ∨ Char.ofNat k.val = (Nat.digitChar n).toUpper) := by decide
  have hsmall : ∀ top : Char, top.toNat < 128 → c ≤ top → c.toNat < 128 := by
    intro top htop hle
    exact Nat.lt_of_le_of_lt (UInt32.le_iff_toNat_le.1 hle) htop
  have hascii : c.toNat < 128 := by
    unfold hexValue? at h
    split_ifs at h with hdigit hlower hupper
    · exact hsmall '9' (by decide) hdigit.2
    · exact hsmall 'f' (by decide) hlower.2
    · exact hsmall 'F' (by decide) hupper.2
  have hc := hall ⟨c.toNat, hascii⟩ n
  simp only [Char.ofNat_toNat] at hc
  exact hc h

theorem mem_of_escaped? {letter c : Char} (h : escaped? letter = some c) :
    (letter, c) ∈ escapes := by
  unfold escaped? at h
  split at h
  all_goals cases h
  all_goals decide

/-- **What is read up to a closing mark spells the pieces that are given.** -/
theorem readString_sound {cs rest : List Char} {ps : List Piece}
    (h : readString cs = some (ps, rest)) :
    ∃ quoted, Spells ps quoted ∧ cs = quoted ++ '"' :: rest := by
  fun_induction readString cs generalizing ps rest with
  | case1 => cases h
  | case2 =>
    cases h
    exact ⟨[], .nil, rfl⟩
  | case3 c₃ c₂ c₁ c₀ cs ih =>
    simp only [Option.bind_eq_bind, Option.bind_eq_some_iff, Prod.exists, unit?] at h
    obtain ⟨_, ⟨d₃, h₃, d₂, h₂, d₁, h₁, d₀, h₀, hnumber⟩, ps', rest', hread, hresult⟩ := h
    cases hnumber
    cases hresult
    obtain ⟨quoted, hspells, rfl⟩ := ih hread
    exact ⟨_, .unit (writes_of_hexValue? h₃) (writes_of_hexValue? h₂) (writes_of_hexValue? h₁)
      (writes_of_hexValue? h₀) hspells, rfl⟩
  | case4 letter cs _ ih =>
    simp only [Option.bind_eq_bind, Option.bind_eq_some_iff, Prod.exists] at h
    obtain ⟨c, hletter, ps', rest', hread, hresult⟩ := h
    cases hresult
    obtain ⟨quoted, hspells, rfl⟩ := ih hread
    exact ⟨_, .short (mem_of_escaped? hletter) hspells, rfl⟩
  | case5 => cases h
  | case6 c cs hmark _ _ hplain ih =>
    simp only [Option.bind_eq_bind, Option.bind_eq_some_iff, Prod.exists] at h
    obtain ⟨ps', rest', hread, hresult⟩ := h
    cases hresult
    obtain ⟨quoted, hspells, rfl⟩ := ih hread
    obtain ⟨hescape, hcontrol⟩ := not_or.1 hplain
    exact ⟨_, .plain hmark hescape (Nat.not_lt.1 hcontrol) hspells, rfl⟩

/-! ## §2. Numbers -/

theorem exists_blanks (cs : List Char) : ∃ blanks, AreBlanks blanks ∧ cs = blanks ++ skip cs :=
  ⟨cs.takeWhile isBlank, fun _ hc => isBlank_iff.1 (List.mem_takeWhile_imp hc),
    List.takeWhile_append_dropWhile.symm⟩

theorem digits_sound {cs ds rest : List Char} (h : digits cs = some (ds, rest)) :
    AreDigits ds ∧ cs = ds ++ rest := by
  simp only [digits] at h
  split at h
  · cases h
  · next hsome =>
    cases h
    refine ⟨⟨?_, fun c hc => List.mem_takeWhile_imp hc⟩, List.takeWhile_append_dropWhile.symm⟩
    simpa using hsome

theorem magnitude_sound {cs ds rest : List Char} (h : magnitude cs = some (ds, rest)) :
    AreWhole ds ∧ cs = ds ++ rest := by
  unfold magnitude at h
  split at h
  · cases h
    exact ⟨by simp [AreWhole, AreDigits], rfl⟩
  · next hzero =>
    obtain ⟨hds, rfl⟩ := digits_sound h
    refine ⟨⟨hds, fun hhead => ?_⟩, rfl⟩
    cases ds with
    | nil => cases hhead
    | cons d ds =>
      cases hhead
      exact absurd rfl (hzero _)

theorem fraction_sound {cs rest : List Char} {f : Bool} (h : fraction cs = some (f, rest)) :
    ∃ part, Fraction f part ∧ cs = part ++ rest := by
  unfold fraction at h
  split at h
  · simp only [Option.bind_eq_bind, Option.bind_eq_some_iff, Prod.exists] at h
    obtain ⟨ds, rest', hdigits, hresult⟩ := h
    cases hresult
    obtain ⟨hds, rfl⟩ := digits_sound hdigits
    exact ⟨_, .some hds, rfl⟩
  · cases h
    exact ⟨[], .none, rfl⟩

theorem skipSign_sound (cs : List Char) :
    ∃ sign ∈ [[], ['+'], ['-']], cs = sign ++ skipSign cs := by
  fun_cases skipSign cs with
  | case1 rest => exact ⟨['+'], by decide, rfl⟩
  | case2 rest => exact ⟨['-'], by decide, rfl⟩
  | case3 => exact ⟨[], by decide, rfl⟩

theorem exponent_sound {cs rest : List Char} {e : Bool} (h : exponent cs = some (e, rest)) :
    ∃ part, Exponent e part ∧ cs = part ++ rest := by
  unfold exponent at h
  split at h
  · next c cs =>
    split at h
    · next hletter =>
      simp only [Option.bind_eq_bind, Option.bind_eq_some_iff, Prod.exists] at h
      obtain ⟨ds, rest', hdigits, hresult⟩ := h
      cases hresult
      obtain ⟨hds, hrest⟩ := digits_sound hdigits
      obtain ⟨sign, hsign, hcs⟩ := skipSign_sound cs
      refine ⟨_, .some (by simpa using hletter) hsign hds, ?_⟩
      rw [hcs, hrest, List.cons_append, List.append_assoc]
    · cases h
      exact ⟨[], .none, rfl⟩
  · cases h
    exact ⟨[], .none, rfl⟩

theorem readUnsigned_sound {cs rest : List Char} {negative : Bool} {n : Number}
    (h : readUnsigned negative cs = some (n, rest)) :
    ∃ part, WritesNumber n ((if negative then ['-'] else []) ++ part) ∧ cs = part ++ rest := by
  simp only [readUnsigned, Option.bind_eq_bind, Option.bind_eq_some_iff, Prod.exists] at h
  obtain ⟨ds, cs₁, hmagnitude, f, cs₂, hfraction, e, cs₃, hexponent, hresult⟩ := h
  cases hresult
  obtain ⟨hds, rfl⟩ := magnitude_sound hmagnitude
  obtain ⟨part, hf, rfl⟩ := fraction_sound hfraction
  obtain ⟨part', he, rfl⟩ := exponent_sound hexponent
  exact ⟨_, .parts hds hf he, by simp only [List.append_assoc]⟩

/-- **What is read as a number writes it.** -/
theorem readNumber_sound {cs rest : List Char} {n : Number} (h : readNumber cs = some (n, rest)) :
    ∃ part, WritesNumber n part ∧ cs = part ++ rest := by
  by_cases hsign : ∃ cs', cs = '-' :: cs'
  · obtain ⟨cs', rfl⟩ := hsign
    obtain ⟨part, hpart, rfl⟩ := @readUnsigned_sound cs' rest true n h
    exact ⟨_, hpart, rfl⟩
  · have hplain : readNumber cs = readUnsigned false cs := by
      unfold readNumber
      split
      · next heq =>
        split at heq
        · exact absurd ⟨_, rfl⟩ hsign
        · cases heq
          rfl
    obtain ⟨part, hpart, rfl⟩ := readUnsigned_sound (hplain ▸ h)
    exact ⟨_, hpart, rfl⟩

/-! ## §3. Lists -/

section Lists

variable {α : Type} {item : Reader α} {writes : α → List Char → Prop} {close : Char}

/-- Whether what a reader takes was written, behind blanks. -/
def Gives (item : Reader α) (writes : α → List Char → Prop) : Prop :=
  ∀ {cs a rest}, item cs = some (a, rest) →
    ∃ before core, AreBlanks before ∧ writes a core ∧ cs = before ++ (core ++ rest)

theorem sequence_sound (hitem : Gives item writes) {fuel : Nat} {cs rest : List Char}
    {as : List α} (h : sequence item close fuel cs = some (as, rest)) :
    ∃ part, Row writes as part ∧ cs = part ++ close :: rest := by
  induction fuel generalizing cs as with
  | zero => cases h
  | succ fuel ih =>
    simp only [sequence, Option.bind_eq_bind, Option.bind_eq_some_iff, Prod.exists] at h
    obtain ⟨a, cs', hfirst, h⟩ := h
    obtain ⟨before, core, hbefore, ha, rfl⟩ := hitem hfirst
    obtain ⟨after, hafter, hskip⟩ := exists_blanks cs'
    split at h
    · cases h
    · next c cs'' hnext =>
      rw [hnext] at hskip
      split_ifs at h with hcomma hclose
      · simp only [Option.bind_eq_some_iff, Prod.exists] at h
        obtain ⟨as', rest', hmore, hresult⟩ := h
        cases hresult
        obtain ⟨part, hrow, rfl⟩ := ih hmore
        subst hcomma
        exact ⟨_, .cons hbefore ha hafter hrow, by rw [hskip]; simp⟩
      · cases h
        subst hclose
        exact ⟨_, .last hbefore ha hafter, by rw [hskip]; simp⟩

theorem items_sound (hitem : Gives item writes) {fuel : Nat} {cs rest : List Char} {as : List α}
    (h : items item close fuel cs = some (as, rest)) :
    (as = [] ∧ ∃ blanks, AreBlanks blanks ∧ cs = blanks ++ close :: rest)
      ∨ ∃ part, Row writes as part ∧ cs = part ++ close :: rest := by
  obtain ⟨blanks, hblanks, hskip⟩ := exists_blanks cs
  unfold items at h
  split at h
  · cases h
  · next c cs' hnext =>
    rw [hnext] at hskip
    split_ifs at h with hclose
    · cases h
      subst hclose
      exact .inl ⟨rfl, blanks, hblanks, hskip⟩
    · exact .inr (sequence_sound hitem h)

end Lists

/-! ## §4. Values -/

theorem member_sound {item : Reader Json} {writes : Json → List Char → Prop}
    (hitem : Gives item writes) : Gives (member item) (Member writes) := by
  intro cs m rest h
  obtain ⟨before, hbefore, hskip⟩ := exists_blanks cs
  unfold member at h
  split at h
  · next cs₁ hmark =>
    simp only [Option.bind_eq_bind, Option.bind_eq_some_iff, Prod.exists] at h
    obtain ⟨name, cs₂, hread, h⟩ := h
    obtain ⟨quoted, hname, rfl⟩ := readString_sound hread
    obtain ⟨blanks, hblanks, hcolon⟩ := exists_blanks cs₂
    split at h
    · next cs₃ hnext =>
      rw [hnext] at hcolon
      simp only [Option.bind_eq_some_iff, Prod.exists] at h
      obtain ⟨v, rest', hvalue, hresult⟩ := h
      cases hresult
      obtain ⟨after, core, hafter, hv, rfl⟩ := hitem hvalue
      refine ⟨before, _, hbefore, .pair hname hblanks hafter hv, ?_⟩
      rw [hskip, hmark, hcolon]
      simp
    · cases h
  · cases h

theorem word_sound {w cs rest : List Char} (h : word w cs = some rest) : cs = w ++ rest := by
  fun_induction word w cs with
  | case1 cs =>
    cases h
    rfl
  | case2 c w cs ih => rw [ih h, List.cons_append]
  | case3 => cases h
  | case4 => cases h

/-- **What is read as a value writes it.** -/
theorem value_sound (depth : Nat) : Gives (value depth) Writes := by
  induction depth with
  | zero => exact fun h => nomatch h
  | succ depth ih =>
    intro cs v rest h
    obtain ⟨before, hbefore, hskip⟩ := exists_blanks cs
    suffices ∃ core, Writes v core ∧ skip cs = core ++ rest by
      obtain ⟨core, hcore, hrest⟩ := this
      exact ⟨before, core, hbefore, hcore, hskip.trans (congrArg _ hrest)⟩
    unfold value at h
    split at h
    · next cs' hopen =>
      obtain ⟨⟨ps, rest'⟩, hread, hresult⟩ := Option.map_eq_some_iff.1 h
      cases hresult
      obtain ⟨quoted, hps, rfl⟩ := readString_sound hread
      exact ⟨_, .string hps, by rw [hopen]; simp⟩
    · next cs' hopen =>
      obtain ⟨⟨vs, rest'⟩, hread, hresult⟩ := Option.map_eq_some_iff.1 h
      cases hresult
      rcases items_sound ih hread with ⟨rfl, blanks, hblanks, rfl⟩ | ⟨part, hvs, rfl⟩
      · exact ⟨_, .emptyArray hblanks, by rw [hopen]; simp⟩
      · exact ⟨_, .array hvs, by rw [hopen]; simp⟩
    · next cs' hopen =>
      obtain ⟨⟨ms, rest'⟩, hread, hresult⟩ := Option.map_eq_some_iff.1 h
      cases hresult
      rcases items_sound (member_sound ih) hread with ⟨rfl, blanks, hblanks, rfl⟩ | ⟨part, hms, rfl⟩
      · exact ⟨_, .emptyObject hblanks, by rw [hopen]; simp⟩
      · exact ⟨_, .object hms, by rw [hopen]; simp⟩
    · next cs' hopen =>
      obtain ⟨rest', hread, hresult⟩ := Option.map_eq_some_iff.1 h
      cases hresult
      exact ⟨_, .null, by rw [hopen, word_sound hread]; rfl⟩
    · next cs' hopen =>
      obtain ⟨rest', hread, hresult⟩ := Option.map_eq_some_iff.1 h
      cases hresult
      exact ⟨_, .true, by rw [hopen, word_sound hread]; rfl⟩
    · next cs' hopen =>
      obtain ⟨rest', hread, hresult⟩ := Option.map_eq_some_iff.1 h
      cases hresult
      exact ⟨_, .false, by rw [hopen, word_sound hread]; rfl⟩
    · obtain ⟨⟨n, rest'⟩, hread, hresult⟩ := Option.map_eq_some_iff.1 h
      cases hresult
      obtain ⟨part, hn, hpart⟩ := readNumber_sound hread
      exact ⟨part, .number hn, hpart⟩

theorem denotes_of_parse {text : String} {v : Json} (h : parse text = some v) :
    Denotes text v := by
  unfold parse at h
  split at h
  · next v' rest hvalue =>
    split_ifs at h with hend
    cases h
    obtain ⟨before, core, hbefore, hv, htext⟩ := value_sound _ hvalue
    obtain ⟨after, hafter, hrest⟩ := exists_blanks rest
    rw [List.isEmpty_iff.1 hend, List.append_nil] at hrest
    exact ⟨before, core, after, hbefore, hv, hafter, hrest ▸ htext⟩
  · cases h

/-- **The texts that are read are those of the grammar.** -/
theorem parse_eq_some_iff {text : String} {v : Json} : parse text = some v ↔ Denotes text v :=
  ⟨denotes_of_parse, parse_eq_some⟩

theorem Denotes.unique {text : String} {v w : Json} (hv : Denotes text v) (hw : Denotes text w) :
    v = w :=
  Option.some.inj ((parse_eq_some hv).symm.trans (parse_eq_some hw))

end HeaderPeer.Json
