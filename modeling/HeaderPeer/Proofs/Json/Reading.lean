/-
  HeaderPeer.Proofs.Json.Reading — a text is read as the value that it writes.

  The reader goes through a text from the front and hands on what it leaves, so each part of the
  grammar is followed by a rest.  A number is the only value that could reach into its rest; behind
  a value stands a blank, a comma or a closing mark, and these end a number (`Ends`).

  The induction is on the depth that the reader is allowed.  A value is nested less deep than it is
  long, so the length of the text is depth enough, and the same bound does for the items of a list.

  Main statements:
    * `readString_append` — strings.
    * `readNumber_append` — numbers.
    * `value_append` — values, by way of `sequence_append` for lists.
    * `parse_eq_some` — whole texts.
-/
import HeaderPeer.Proofs.Json.Grammar
import Mathlib.Data.Bool.AllAny

namespace HeaderPeer.Json

/-! ## §1. Strings -/

theorem hexValue?_of_writes {c : Char} {n : Nat} (h : Hex.Writes c n) : hexValue? c = some n := by
  refine h.of_forall (P := fun c n => hexValue? c = some n) ?_
  decide

theorem escaped?_of_mem {letter c : Char} (h : (letter, c) ∈ escapes) :
    escaped? letter = some c := by
  have hall : ∀ e ∈ escapes, escaped? e.1 = some e.2 := List.all_iff_forall_prop.1 (by decide)
  exact hall _ h

theorem readString_plain {c : Char} (rest : List Char) (hmark : c ≠ '"') (hescape : c ≠ '\\')
    (hcontrol : 0x20 ≤ c.toNat) :
    readString (c :: rest) = (readString rest).map fun r => (.char c :: r.1, r.2) := by
  rw [readString]
  · rw [if_neg (not_or.2 ⟨hescape, Nat.not_lt.2 hcontrol⟩)]
    cases readString rest <;> rfl
  · simpa using hmark
  · simp [hescape]
  · simp [hescape]

theorem readString_short {letter c : Char} (rest : List Char) (h : escaped? letter = some c) :
    readString ('\\' :: letter :: rest)
      = (readString rest).map fun r => (.char c :: r.1, r.2) := by
  have hletter : letter ≠ 'u' := by
    rintro rfl
    cases h
  rw [readString]
  · rw [h]
    cases readString rest <;> rfl
  · simp [hletter]

theorem readString_unit {c₃ c₂ c₁ c₀ : Char} {d₃ d₂ d₁ d₀ : Nat} (rest : List Char)
    (h₃ : Hex.Writes c₃ d₃) (h₂ : Hex.Writes c₂ d₂) (h₁ : Hex.Writes c₁ d₁)
    (h₀ : Hex.Writes c₀ d₀) :
    readString ('\\' :: 'u' :: c₃ :: c₂ :: c₁ :: c₀ :: rest)
      = (readString rest).map fun r =>
          (.unit (d₃ * 0x1000 + d₂ * 0x100 + d₁ * 0x10 + d₀) :: r.1, r.2) := by
  rw [readString, unit?, hexValue?_of_writes h₃, hexValue?_of_writes h₂, hexValue?_of_writes h₁,
    hexValue?_of_writes h₀]
  cases readString rest <;> rfl

/-- **A string is read up to the mark that closes it.** -/
theorem readString_append {ps : List Piece} {quoted : List Char} (h : Spells ps quoted)
    (rest : List Char) : readString (quoted ++ '"' :: rest) = some (ps, rest) := by
  induction h with
  | nil => rfl
  | plain hmark hescape hcontrol _ ih =>
    rw [List.cons_append, readString_plain _ hmark hescape hcontrol, ih, Option.map_some]
  | short hletter _ ih =>
    rw [List.cons_append, List.cons_append, readString_short _ (escaped?_of_mem hletter), ih,
      Option.map_some]
  | unit h₃ h₂ h₁ h₀ _ ih =>
    simp only [List.cons_append]
    rw [readString_unit _ h₃ h₂ h₁ h₀, ih, Option.map_some]

/-! ## §2. What a string means -/

/-- A unit that is no half of a pair is a character. -/
theorem chars?_unit {n : Nat} (ps : List Piece) (hlead : leads n = false)
    (htrail : trails n = false) :
    chars? (.unit n :: ps) = (chars? ps).map (Char.ofNat n :: ·) := by
  cases ps with
  | nil => simp [chars?, hlead, htrail]
  | cons p ps =>
    cases p with
    | char c => simp [chars?, hlead, htrail]
    | unit m => simp [chars?, hlead, htrail]

theorem toNat_valid (c : Char) : c.toNat < 0xd800 ∨ 0xdfff < c.toNat ∧ c.toNat < 0x110000 :=
  c.valid

/-- The number of a character is no half of a pair. -/
theorem not_half (c : Char) : leads c.toNat = false ∧ trails c.toNat = false := by
  have hvalid := toNat_valid c
  simp only [leads, trails, decide_eq_false_iff_not]
  omega

/-- The two units of a character beyond the first 65536 are the halves of a pair, and make up that
character. -/
theorem pair_of_toNat {c : Char} (h : 0x10000 ≤ c.toNat) :
    leads (0xd800 + (c.toNat - 0x10000) / 0x400) = true
      ∧ trails (0xdc00 + (c.toNat - 0x10000) % 0x400) = true
      ∧ pair (0xd800 + (c.toNat - 0x10000) / 0x400) (0xdc00 + (c.toNat - 0x10000) % 0x400) = c := by
  have hvalid := toNat_valid c
  refine ⟨?_, ?_, ?_⟩
  · simp only [leads, decide_eq_true_eq]
    omega
  · simp only [trails, decide_eq_true_eq]
    omega
  · have hnumber : 0x10000 + (0xd800 + (c.toNat - 0x10000) / 0x400 - 0xd800) * 0x400
        + (0xdc00 + (c.toNat - 0x10000) % 0x400 - 0xdc00) = c.toNat := by omega
    rw [pair, hnumber, Char.ofNat_toNat]

theorem chars?_of_means {ps : List Piece} {cs : List Char} (h : Means ps cs) :
    chars? ps = some cs := by
  induction h with
  | nil => rfl
  | char _ ih => rw [chars?, ih, Option.map_some]
  | @unit c _ _ _ _ ih =>
    rw [chars?_unit _ (not_half c).1 (not_half c).2, ih, Option.map_some, Char.ofNat_toNat]
  | pair hbeyond _ ih =>
    obtain ⟨hlead, htrail, hpair⟩ := pair_of_toNat hbeyond
    rw [chars?, if_pos hlead, if_pos htrail, ih, Option.map_some, hpair]

theorem text?_of_means {ps : List Piece} {t : String} (h : Means ps t.toList) :
    text? ps = some t := by
  rw [text?, chars?_of_means h, Option.map_some, String.ofList_toList]

/-! ## §3. What may follow -/

/-- Whether a rest begins with what may stand behind a value, or is empty. -/
def Ends (rest : List Char) : Prop :=
  ∀ c ∈ rest.head?, c ∈ [' ', '\t', '\n', '\r', ',', ']', '\x7d']

/-- Whether a rest does not go on with digits. -/
def NoDigit (rest : List Char) : Prop := ∀ c ∈ rest.head?, isDigit c = false

theorem Ends.noDigit {rest : List Char} (h : Ends rest) : NoDigit rest := by
  have hall : ∀ c ∈ [' ', '\t', '\n', '\r', ',', ']', '\x7d'], isDigit c = false :=
    List.all_iff_forall_prop.1 (by decide)
  exact fun c hc => hall c (h c hc)

theorem isBlank_iff {c : Char} : isBlank c = true ↔ c ∈ [' ', '\t', '\n', '\r'] := by
  simp [isBlank, or_assoc]

theorem isBlank_eq_false {c : Char} (h : c ∉ [' ', '\t', '\n', '\r']) : isBlank c = false := by
  rw [← Bool.not_eq_true, isBlank_iff]
  exact h

theorem Ends.of_blanks {blanks rest : List Char} (hblanks : AreBlanks blanks) (h : Ends rest) :
    Ends (blanks ++ rest) := by
  cases blanks with
  | nil => exact h
  | cons b blanks =>
    intro c hc
    cases hc
    exact List.mem_append_left [',', ']', '\x7d'] (hblanks b List.mem_cons_self)

/-- Blanks are passed over, up to the first character that is none. -/
theorem skip_append {blanks rest : List Char} (hblanks : AreBlanks blanks) :
    skip (blanks ++ rest) = skip rest :=
  List.dropWhile_append_of_pos fun c hc => isBlank_iff.2 (hblanks c hc)

theorem skip_cons {c : Char} {cs : List Char} (h : isBlank c = false) : skip (c :: cs) = c :: cs :=
  List.dropWhile_cons_of_neg (by simp [h])

/-! ## §4. Numbers -/

theorem AreDigits.eq_cons {ds : List Char} (h : AreDigits ds) :
    ∃ d rest, ds = d :: rest ∧ d.isDigit = true := by
  cases ds with
  | nil => exact absurd rfl h.1
  | cons d rest => exact ⟨d, rest, rfl, h.2 d List.mem_cons_self⟩

theorem digits_append {ds rest : List Char} (hds : AreDigits ds) (hrest : NoDigit rest) :
    digits (ds ++ rest) = some (ds, rest) := by
  obtain ⟨htake, hdrop⟩ : rest.takeWhile isDigit = [] ∧ rest.dropWhile isDigit = rest := by
    cases rest with
    | nil => exact ⟨rfl, rfl⟩
    | cons c cs => simp [hrest c rfl]
  have hall : ∀ c ∈ ds, isDigit c = true := hds.2
  rw [digits, List.takeWhile_append_of_pos hall, List.dropWhile_append_of_pos hall, htake, hdrop,
    List.append_nil]
  simp [hds.1]

theorem magnitude_append {ds rest : List Char} (hds : AreWhole ds) (hrest : NoDigit rest) :
    magnitude (ds ++ rest) = some (ds, rest) := by
  by_cases hzero : ds.head? = some '0'
  · rw [hds.2 hzero]
    rfl
  · rw [← digits_append hds.1 hrest]
    obtain ⟨d, ds, rfl, -⟩ := hds.1.eq_cons
    rw [List.cons_append, magnitude]
    rintro _ heq
    cases heq
    exact hzero rfl

theorem fraction_append {f : Bool} {cs rest : List Char} (h : Fraction f cs)
    (hrest : NoDigit rest) (hpoint : rest.head? ≠ some '.') :
    fraction (cs ++ rest) = some (f, rest) := by
  cases h with
  | none =>
    cases rest with
    | nil => rfl
    | cons c cs =>
      rw [List.nil_append, fraction]
      · rfl
      · rintro _ heq
        cases heq
        exact hpoint rfl
  | some hds =>
    rw [List.cons_append, fraction, digits_append hds hrest]
    rfl

theorem skipSign_append {sign ds : List Char} (hsign : sign ∈ [[], ['+'], ['-']])
    (hds : AreDigits ds) (rest : List Char) : skipSign (sign ++ (ds ++ rest)) = ds ++ rest := by
  simp only [List.mem_cons, List.not_mem_nil, or_false] at hsign
  rcases hsign with rfl | rfl | rfl
  · obtain ⟨d, ds, rfl, hdigit⟩ := hds.eq_cons
    rw [List.nil_append, List.cons_append, skipSign]
    -- a digit is no sign
    · rintro _ heq
      cases heq
      cases hdigit
    · rintro _ heq
      cases heq
      cases hdigit
  · rfl
  · rfl

theorem exponent_append {e : Bool} {cs rest : List Char} (h : Exponent e cs) (hrest : Ends rest) :
    exponent (cs ++ rest) = some (e, rest) := by
  cases h with
  | none =>
    cases rest with
    | nil => rfl
    | cons c cs =>
      have hall : ∀ c ∈ [' ', '\t', '\n', '\r', ',', ']', '\x7d'], ¬ (c = 'e' ∨ c = 'E') :=
        List.all_iff_forall_prop.1 (by decide)
      rw [List.nil_append, exponent, if_neg (hall c (hrest c rfl))]
      rfl
  | @some letter _ _ hletter hsign hds =>
    have hletter : letter = 'e' ∨ letter = 'E' := by simpa using hletter
    rw [List.cons_append, List.append_assoc, exponent, if_pos hletter,
      skipSign_append hsign hds, digits_append hds hrest.noDigit]
    rfl

/-- Behind the digits of a number without a fraction stands neither a digit nor a point. -/
theorem head_exponent {e : Bool} {cs rest : List Char} (h : Exponent e cs) (hrest : Ends rest) :
    NoDigit (cs ++ rest) ∧ (cs ++ rest).head? ≠ some '.' := by
  cases h with
  | none => exact ⟨hrest.noDigit, fun hpoint => absurd (hrest '.' hpoint) (by decide)⟩
  | some he _ _ =>
    have hall : ∀ c ∈ ['e', 'E'], isDigit c = false ∧ c ≠ '.' :=
      List.all_iff_forall_prop.1 (by decide)
    obtain ⟨hdigit, hpoint⟩ := hall _ he
    refine ⟨?_, fun heq => hpoint (Option.some.inj heq)⟩
    rintro _ ⟨⟩
    exact hdigit

theorem head_fraction {f : Bool} {cs rest : List Char} (h : Fraction f cs) (hrest : NoDigit rest) :
    NoDigit (cs ++ rest) := by
  cases h with
  | none => exact hrest
  | some _ =>
    rintro _ ⟨⟩
    rfl

/-- Reads a number behind its sign. -/
def readUnsigned (negative : Bool) : Reader Number := fun cs => do
  let (digits, cs) ← magnitude cs
  let (hasFraction, cs) ← fraction cs
  let (hasExponent, cs) ← exponent cs
  return ({ negative, digits, whole := !hasFraction && !hasExponent }, cs)

theorem readNumber_sign {ds : List Char} (negative : Bool) (hds : AreDigits ds)
    (rest : List Char) :
    readNumber ((if negative then ['-'] else []) ++ (ds ++ rest))
      = readUnsigned negative (ds ++ rest) := by
  cases negative with
  | true => rfl
  | false =>
    obtain ⟨d, ds, rfl, hdigit⟩ := hds.eq_cons
    have hsign : d ≠ '-' := by
      rintro rfl
      cases hdigit
    simp [readNumber, readUnsigned, hsign]

/-- **A number is read whole.** -/
theorem readNumber_append {n : Number} {cs rest : List Char} (h : WritesNumber n cs)
    (hrest : Ends rest) : readNumber (cs ++ rest) = some (n, rest) := by
  cases h with
  | parts hds hf he =>
    obtain ⟨hdigit, hpoint⟩ := head_exponent he hrest
    simp only [List.append_assoc]
    rw [readNumber_sign _ hds.1, readUnsigned, magnitude_append hds (head_fraction hf hdigit)]
    simp only [Option.bind_eq_bind, Option.bind_some]
    rw [fraction_append hf hdigit hpoint]
    simp only [Option.bind_some]
    rw [exponent_append he hrest]
    rfl

/-! ## §5. Lists -/

/-- Whether a text begins with what is neither a blank nor closes a list. -/
def Begins (cs : List Char) : Prop :=
  ∃ c rest, cs = c :: rest ∧ c ∉ [' ', '\t', '\n', '\r', ']', '\x7d']

section Lists

variable {α : Type} {item : Reader α} {writes : α → List Char → Prop} {bound : Nat} {close : Char}

/-- Whether a reader takes what is written of less than the given length, and the blanks in front
of it. -/
def Takes (item : Reader α) (writes : α → List Char → Prop) (bound : Nat) : Prop :=
  ∀ {a core before rest}, writes a core → core.length < bound → AreBlanks before → Ends rest →
    item (before ++ (core ++ rest)) = some (a, rest)

theorem ends_close (hclose : close ∈ [']', '\x7d']) (rest : List Char) : Ends (close :: rest) := by
  rintro _ ⟨⟩
  exact List.mem_append_right [' ', '\t', '\n', '\r', ','] hclose

/-- What closes a list is no comma, and no blank either. -/
theorem close_ne (hclose : close ∈ [']', '\x7d']) : close ≠ ',' ∧ isBlank close = false := by
  have hall : ∀ c ∈ [']', '\x7d'], c ≠ ',' ∧ isBlank c = false :=
    List.all_iff_forall_prop.1 (by decide)
  exact hall close hclose

theorem sequence_last {a : α} {cs after rest : List Char} (fuel : Nat)
    (hclose : close ∈ [']', '\x7d']) (hafter : AreBlanks after)
    (h : item cs = some (a, after ++ close :: rest)) :
    sequence item close (fuel + 1) cs = some ([a], rest) := by
  obtain ⟨hcomma, hblank⟩ := close_ne hclose
  simp [sequence, h, skip_append hafter, skip_cons hblank, hcomma]

theorem sequence_comma {a : α} {cs after rest : List Char} (fuel : Nat)
    (hafter : AreBlanks after) (h : item cs = some (a, after ++ ',' :: rest)) :
    sequence item close (fuel + 1) cs
      = (sequence item close fuel rest).map fun r => (a :: r.1, r.2) := by
  have hblank : isBlank ',' = false := by decide
  simp only [sequence, h, skip_append hafter, skip_cons hblank, Option.bind_eq_bind,
    Option.bind_some, if_pos]
  cases sequence item close fuel rest <;> rfl

/-- **Items with commas between them are read up to what closes the list.**  Each comma is a
character, so the length of the text bounds the number of items. -/
theorem sequence_append (hitem : Takes item writes bound) (hclose : close ∈ [']', '\x7d'])
    {as : List α} {cs : List Char} (h : Row writes as cs) (rest : List Char) {fuel : Nat}
    (hbound : cs.length < bound) (hfuel : cs.length < fuel) :
    sequence item close fuel (cs ++ close :: rest) = some (as, rest) := by
  induction h generalizing fuel with
  | @last a before core after hbefore ha hafter =>
    simp only [List.length_append] at hbound hfuel
    obtain ⟨fuel, rfl⟩ := Nat.exists_eq_add_one.2 (Nat.zero_lt_of_lt hfuel)
    refine sequence_last fuel hclose hafter ?_
    simp only [List.append_assoc]
    exact hitem ha (by omega) hbefore ((ends_close hclose rest).of_blanks hafter)
  | @cons a before core after as cs hbefore ha hafter _ ih =>
    simp only [List.length_append, List.length_cons] at hbound hfuel
    obtain ⟨fuel, rfl⟩ := Nat.exists_eq_add_one.2 (Nat.zero_lt_of_lt hfuel)
    have hcomma : Ends (',' :: (cs ++ close :: rest)) := by
      rintro _ ⟨⟩
      decide
    have hfirst := hitem ha (by omega) hbefore (hcomma.of_blanks hafter)
    simp only [List.append_assoc, List.cons_append]
    rw [sequence_comma fuel hafter hfirst, ih (by omega) (by omega), Option.map_some]

theorem items_empty {blanks : List Char} (hclose : close ∈ [']', '\x7d'])
    (hblanks : AreBlanks blanks) (fuel : Nat) (rest : List Char) :
    items item close fuel (blanks ++ close :: rest) = some ([], rest) := by
  simp [items, skip_append hblanks, skip_cons (close_ne hclose).2]

/-- A row begins as its first item does, behind blanks. -/
theorem Row.begins (hbegins : ∀ {a core}, writes a core → Begins core) {as : List α}
    {cs : List Char} (h : Row writes as cs) :
    ∃ before core, AreBlanks before ∧ Begins core ∧ cs = before ++ core := by
  have happend : ∀ {core more}, Begins core → Begins (core ++ more) := by
    rintro _ more ⟨c, rest, rfl, hc⟩
    exact ⟨c, rest ++ more, rfl, hc⟩
  cases h with
  | last hbefore ha _ => exact ⟨_, _, hbefore, happend (hbegins ha), rfl⟩
  | cons hbefore ha _ _ => exact ⟨_, _, hbefore, happend (hbegins ha), rfl⟩

theorem items_append (hitem : Takes item writes bound)
    (hbegins : ∀ {a core}, writes a core → Begins core) (hclose : close ∈ [']', '\x7d'])
    {as : List α} {cs : List Char} (h : Row writes as cs) (rest : List Char) {fuel : Nat}
    (hbound : cs.length < bound) (hfuel : cs.length < fuel) :
    items item close fuel (cs ++ close :: rest) = some (as, rest) := by
  obtain ⟨before, core, hbefore, ⟨c, tail, rfl, hc⟩, hcs⟩ := h.begins hbegins
  have hblank : isBlank c = false :=
    isBlank_eq_false fun hmem => hc (List.mem_append_left [']', '\x7d'] hmem)
  have hskip : skip (cs ++ close :: rest) = c :: (tail ++ close :: rest) := by
    rw [hcs, List.append_assoc, skip_append hbefore]
    exact skip_cons hblank
  have hopen : c ≠ close := by
    rintro rfl
    exact hc (List.mem_append_right [' ', '\t', '\n', '\r'] hclose)
  simp only [items, hskip, if_neg hopen]
  exact sequence_append hitem hclose h rest hbound hfuel

end Lists

/-! ## §6. Values -/

theorem Member.begins {writes : Json → List Char → Prop} {m : List Piece × Json} {cs : List Char}
    (h : Member writes m cs) : Begins cs := by
  cases h with
  | pair _ _ _ _ => exact ⟨'"', _, rfl, by decide⟩

/-- A number begins with a sign or a digit. -/
theorem WritesNumber.begins {n : Number} {cs : List Char} (h : WritesNumber n cs) :
    ∃ c rest, cs = c :: rest ∧ (c = '-' ∨ c.isDigit = true) := by
  cases h with
  | @parts negative ds _ _ _ _ hds _ _ =>
    cases negative with
    | true => exact ⟨'-', _, rfl, .inl rfl⟩
    | false =>
      obtain ⟨d, ds, rfl, hdigit⟩ := hds.1.eq_cons
      exact ⟨d, _, rfl, .inr hdigit⟩

/-- What a number begins with is none of the characters with which another value begins. -/
theorem not_mem_of_number {c : Char} (h : c = '-' ∨ c.isDigit = true) :
    c ∉ [' ', '\t', '\n', '\r', ']', '\x7d', '"', '[', '\x7b', 'n', 't', 'f'] := by
  have hall : ∀ c ∈ [' ', '\t', '\n', '\r', ']', '\x7d', '"', '[', '\x7b', 'n', 't', 'f'],
      ¬ (c = '-' ∨ c.isDigit = true) := List.all_iff_forall_prop.1 (by decide)
  exact fun hmem => hall c hmem h

theorem Writes.begins {v : Json} {cs : List Char} (h : Writes v cs) : Begins cs := by
  cases h with
  | null => exact ⟨'n', _, rfl, by decide⟩
  | true => exact ⟨'t', _, rfl, by decide⟩
  | false => exact ⟨'f', _, rfl, by decide⟩
  | string _ => exact ⟨'"', _, rfl, by decide⟩
  | emptyArray _ => exact ⟨'[', _, rfl, by decide⟩
  | array _ => exact ⟨'[', _, rfl, by decide⟩
  | emptyObject _ => exact ⟨'\x7b', _, rfl, by decide⟩
  | object _ => exact ⟨'\x7b', _, rfl, by decide⟩
  | number hn =>
    obtain ⟨c, rest, rfl, hc⟩ := hn.begins
    refine ⟨c, rest, rfl, fun hmem => not_mem_of_number hc ?_⟩
    exact List.mem_append_left ['"', '[', '\x7b', 'n', 't', 'f'] hmem

/-- A member is read by way of a reader of values. -/
theorem member_append {item : Reader Json} {writes : Json → List Char → Prop} {bound : Nat}
    (hitem : Takes item writes bound) : Takes (member item) (Member writes) bound := by
  intro m core before rest hm hlength hbefore hrest
  cases hm with
  | @pair name quoted blanks after v core hname hblanks hafter hv =>
    simp only [List.length_cons, List.length_append] at hlength
    have hmark : isBlank '"' = false := by decide
    have hcolon : isBlank ':' = false := by decide
    simp only [List.cons_append, List.append_assoc, member, skip_append hbefore, skip_cons hmark,
      readString_append hname, skip_append hblanks, skip_cons hcolon, Option.bind_eq_bind,
      Option.bind_some]
    rw [hitem hv (by omega) hafter hrest]
    rfl

theorem value_skip {blanks : List Char} (hblanks : AreBlanks blanks) (depth : Nat)
    (cs : List Char) : value (depth + 1) (blanks ++ cs) = value (depth + 1) cs := by
  rw [value, value, skip_append hblanks]

theorem value_string (depth : Nat) (cs : List Char) :
    value (depth + 1) ('"' :: cs) = (readString cs).map fun r => (string r.1, r.2) := rfl

theorem value_array (depth : Nat) (cs : List Char) :
    value (depth + 1) ('[' :: cs)
      = (items (value depth) ']' depth cs).map fun r => (array r.1, r.2) := rfl

theorem value_object (depth : Nat) (cs : List Char) :
    value (depth + 1) ('\x7b' :: cs)
      = (items (member (value depth)) '\x7d' depth cs).map fun r => (object r.1, r.2) := rfl

theorem value_number {c : Char} (h : c = '-' ∨ c.isDigit = true) (depth : Nat) (cs : List Char) :
    value (depth + 1) (c :: cs) = (readNumber (c :: cs)).map fun r => (number r.1, r.2) := by
  have hblank : isBlank c = false :=
    isBlank_eq_false fun hmem => not_mem_of_number h (List.mem_append_left _ hmem)
  rw [value, skip_cons hblank]
  split
  case h_7 => rfl
  -- the characters that have a case of their own
  all_goals
    next heq =>
      cases heq
      exact absurd h (by decide)

/-- **A value is read as what it is.**  The induction is on the depth, and the items of a list are
read with one level less. -/
theorem value_append (depth : Nat) : Takes (value depth) Writes depth := by
  induction depth with
  | zero => exact fun _ hlength => absurd hlength (Nat.not_lt_zero _)
  | succ depth ih =>
    intro v core before rest hv hlength hbefore hrest
    rw [value_skip hbefore]
    cases hv with
    | null => rfl
    | true => rfl
    | false => rfl
    | string hps =>
      rw [List.cons_append, List.append_assoc, value_string]
      exact congrArg _ (readString_append hps rest)
    | emptyArray hblanks =>
      rw [List.cons_append, List.append_assoc, value_array]
      exact congrArg _ (items_empty (by decide) hblanks depth rest)
    | emptyObject hblanks =>
      rw [List.cons_append, List.append_assoc, value_object]
      exact congrArg _ (items_empty (by decide) hblanks depth rest)
    | array hvs =>
      simp only [List.length_cons, List.length_append, List.length_nil] at hlength
      rw [List.cons_append, List.append_assoc, value_array]
      exact congrArg _
        (items_append ih Writes.begins (by decide) hvs rest (by omega) (by omega))
    | object hms =>
      simp only [List.length_cons, List.length_append, List.length_nil] at hlength
      rw [List.cons_append, List.append_assoc, value_object]
      exact congrArg _ (items_append (member_append ih) Member.begins (by decide) hms rest
        (by omega) (by omega))
    | number hn =>
      obtain ⟨c, cs, rfl, hc⟩ := hn.begins
      rw [List.cons_append, value_number hc]
      exact congrArg _ (readNumber_append hn hrest)

/-- **A text is read as the value that it writes.** -/
theorem parse_eq_some {text : String} {v : Json} (h : Denotes text v) : parse text = some v := by
  obtain ⟨before, core, after, hbefore, hv, hafter, htext⟩ := h
  have hlength : text.length = before.length + (core.length + after.length) := by
    rw [← String.length_toList, htext, List.length_append, List.length_append]
  have hends : Ends after := by
    have hnil : Ends [] := fun c hc => nomatch hc
    exact List.append_nil after ▸ hnil.of_blanks hafter
  have hskip : skip after = [] := by
    have hnil : skip (after ++ []) = [] := skip_append hafter
    rwa [List.append_nil] at hnil
  rw [parse, htext, value_append (text.length + 1) hv (by omega) hbefore hends]
  simp [hskip]

end HeaderPeer.Json
