/-
  HeaderPeer.Proofs.Wire.VarInt — the forms in which a var int is read, and the one that is written.

  A number is read in one byte, or behind a marker in two, four or eight bytes, whether it needs so
  many or not.  `Form` says which byte strings stand for which numbers, without a reader.  The reader
  is shown to take exactly the forms and to fail where one is cut off, and the writer to pick, of all
  forms of its number, the one that is shorter than the others.

  Main statements:
    * `Form.run`, `run_varInt_cases` — what is read, and what becomes of any other byte string.
    * `Form.size_le`, `Form.eq_of_length` — how long a form must be, and that its length tells it.
    * `shortest_and_exact` — the written form comes back, is the shortest and begins no other.
-/
import HeaderPeer.Proofs.Bytes
import HeaderPeer.Proofs.Wire.Get
import HeaderPeer.Proofs.Wire.Put

namespace HeaderPeer.Wire.VarInt

variable {b marker marker' : UInt8} {width : Nat} {v : UInt64} {bs cs digits rest : Bytes}

/-! ## §1. Forms -/

/-- The markers, and how many bytes follow each of them. -/
inductive Marks : UInt8 → Nat → Prop where
  | two : Marks 0xfd 2
  | four : Marks 0xfe 4
  | eight : Marks 0xff 8

/-- The byte strings that stand for a number. -/
inductive Form : Bytes → UInt64 → Prop where
  /-- A byte that is no marker stands for itself. -/
  | plain {b : UInt8} {v : UInt64} (hsmall : b.toNat < 0xfd) (hvalue : v.toNat = b.toNat) :
      Form [b] v
  /-- Behind a marker stand as many digits as it says; the highest of them may be zero. -/
  | marked {marker : UInt8} {width : Nat} {digits : Bytes} {v : UInt64}
      (hmarks : Marks marker width) (hlen : digits.length = width)
      (hvalue : v.toNat = digits.toNatLE) : Form (marker :: digits) v

theorem plain_or_marks (b : UInt8) : b.toNat < 0xfd ∨ ∃ width, Marks b width := by
  have hb := b.toNat_lt
  have hcases : b.toNat < 0xfd ∨ b.toNat = 0xfd ∨ b.toNat = 0xfe ∨ b.toNat = 0xff := by omega
  obtain hsmall | htwo | hfour | height := hcases
  · exact .inl hsmall
  · obtain rfl : b = 0xfd := UInt8.toNat_inj.1 htwo
    exact .inr ⟨2, .two⟩
  · obtain rfl : b = 0xfe := UInt8.toNat_inj.1 hfour
    exact .inr ⟨4, .four⟩
  · obtain rfl : b = 0xff := UInt8.toNat_inj.1 height
    exact .inr ⟨8, .eight⟩

theorem Marks.width_pos (h : Marks marker width) : 0 < width := by
  cases h <;> decide

theorem Marks.unique (h : Marks marker width) (h' : Marks marker' width) : marker = marker' := by
  cases h <;> cases h' <;> rfl

/-- No marker announces more digits than a number has. -/
theorem Marks.value_lt (h : Marks marker width) (hlen : digits.length = width) :
    digits.toNatLE < 2 ^ 64 := by
  have hlt := Bytes.toNatLE_lt digits
  rw [hlen] at hlt
  cases h <;> omega

theorem Form.length_mem (h : Form bs v) : bs.length ∈ [1, 3, 5, 9] := by
  cases h with
  | plain => exact List.mem_cons_self
  | marked hmarks hlen =>
    rw [List.length_cons, hlen]
    cases hmarks <;> decide

/-! ## §2. Reading -/

/-- A number that fits into two bytes comes back from them. -/
theorem toUInt64_ofNat16 (h : v.toNat < 256 ^ 2) : (UInt16.ofNat v.toNat).toUInt64 = v := by
  apply UInt64.toNat_inj.1
  rw [UInt16.toNat_toUInt64, UInt16.toNat_ofNat']
  omega

theorem toUInt64_ofNat32 (h : v.toNat < 256 ^ 4) : (UInt32.ofNat v.toNat).toUInt64 = v := by
  apply UInt64.toNat_inj.1
  rw [UInt32.toNat_toUInt64, UInt32.toNat_ofNat']
  omega

/-- **Behind a marker the digits are read**, if they are all there. -/
theorem Marks.run (h : Marks marker width) (hlen : digits.length = width)
    (hvalue : v.toNat = digits.toNatLE) (tail : Bytes) :
    Get.varInt.run (marker :: (digits ++ tail)) = .ok v tail := by
  have hdigits : (Get.natLE width).run (digits ++ tail) = .ok v.toNat tail := by
    rw [hvalue, ← hlen]
    exact run_bind (run_bytes digits tail)
  have hlt : v.toNat < 256 ^ width := by
    rw [hvalue, ← hlen]
    exact Bytes.toNatLE_lt digits
  rw [Get.varInt, run_bind (run_uint8 marker (digits ++ tail))]
  cases h with
  | two =>
    rw [if_pos rfl, ← toUInt64_ofNat16 hlt]
    exact run_bind (run_bind hdigits)
  | four =>
    rw [if_neg (by decide), if_pos rfl, ← toUInt64_ofNat32 hlt]
    exact run_bind (run_bind hdigits)
  | eight =>
    rw [if_neg (by decide), if_neg (by decide), if_pos rfl, ← UInt64.ofNat_toNat (x := v)]
    exact run_bind hdigits

/-- Where digits are missing, the marker alone is taken. -/
theorem Marks.run_short (h : Marks marker width) (hshort : rest.length < width) :
    Get.varInt.run (marker :: rest) = .error (.endOfData width rest.length) rest := by
  have hdigits : (Get.natLE width).run rest = .error (.endOfData width rest.length) rest :=
    run_bind_error (run_bytes_short hshort)
  rw [Get.varInt, run_bind (run_uint8 marker rest)]
  cases h with
  | two =>
    rw [if_pos rfl]
    exact run_bind_error (run_bind_error hdigits)
  | four =>
    rw [if_neg (by decide), if_pos rfl]
    exact run_bind_error (run_bind_error hdigits)
  | eight =>
    rw [if_neg (by decide), if_neg (by decide), if_pos rfl]
    exact run_bind_error hdigits

theorem run_plain (hsmall : b.toNat < 0xfd) (hvalue : v.toNat = b.toNat) (tail : Bytes) :
    Get.varInt.run (b :: tail) = .ok v tail := by
  have hother : ∀ marker : UInt8, 0xfd ≤ marker.toNat → b ≠ marker := by
    rintro marker hmarker rfl
    omega
  have hsame : b.toUInt64 = v := UInt64.toNat_inj.1 hvalue.symm
  rw [Get.varInt, run_bind (run_uint8 b tail), if_neg (hother _ (by decide)),
    if_neg (hother _ (by decide)), if_neg (hother _ (by decide)), hsame]
  rfl

/-- **A form is read as its number**, whatever follows. -/
theorem Form.run (h : Form bs v) (tail : Bytes) : Get.varInt.run (bs ++ tail) = .ok v tail := by
  cases h with
  | plain hsmall hvalue => exact run_plain hsmall hvalue tail
  | marked hmarks hlen hvalue => exact hmarks.run hlen hvalue tail

/-- **What becomes of a byte string**: a form at its front is read, and otherwise there is nothing
at all, or a marker and too little behind it. -/
theorem run_varInt_cases (data : Bytes) :
    (∃ v taken rest, data = taken ++ rest ∧ Form taken v ∧ Get.varInt.run data = .ok v rest)
      ∨ (data = [] ∧ Get.varInt.run data = .error (.endOfData 1 0) [])
      ∨ ∃ marker width rest, data = marker :: rest ∧ Marks marker width ∧ rest.length < width
        ∧ Get.varInt.run data = .error (.endOfData width rest.length) rest := by
  cases data with
  | nil => exact .inr (.inl ⟨rfl, rfl⟩)
  | cons b behind =>
    obtain hsmall | ⟨width, hmarks⟩ := plain_or_marks b
    · have hform : Form [b] b.toUInt64 := .plain hsmall (UInt8.toNat_toUInt64 b)
      exact .inl ⟨b.toUInt64, [b], behind, rfl, hform, hform.run behind⟩
    · by_cases hshort : behind.length < width
      · exact .inr (.inr ⟨b, width, behind, rfl, hmarks, hshort, hmarks.run_short hshort⟩)
      · -- as many digits as the marker says are a number of 64 bits at most
        have hlen : (behind.take width).length = width := by
          rw [List.length_take]
          omega
        have hfit := hmarks.value_lt hlen
        have hvalue := UInt64.toNat_ofNat_of_lt' hfit
        have hform : Form (b :: behind.take width) _ := .marked hmarks hlen hvalue
        have hdata : b :: behind = (b :: behind.take width) ++ behind.drop width := by
          rw [List.cons_append, List.take_append_drop]
        refine .inl ⟨_, _, behind.drop width, hdata, hform, ?_⟩
        rw [hdata]
        exact hform.run _

/-- What was read was a form. -/
theorem form_of_run (h : Get.varInt.run bs = .ok v rest) :
    ∃ taken, bs = taken ++ rest ∧ Form taken v := by
  obtain ⟨w, taken, rest', hdata, hform, hrun⟩ | ⟨-, hrun⟩ | ⟨marker, width, rest', -, -, -, hrun⟩ :=
    run_varInt_cases bs
  · rw [h] at hrun
    cases hrun
    exact ⟨taken, hdata, hform⟩
  · rw [h] at hrun
    cases hrun
  · rw [h] at hrun
    cases hrun

/-! ## §3. The written form -/

theorem writes_varInt (v : UInt64) : (Put.varInt v).Writes (encode v) :=
  Put.writes_fixed (length_encode v)

/-- A marker and the digits of a number that they have room for. -/
theorem Marks.form (h : Marks marker width) (hfit : v.toNat < 256 ^ width) :
    Form (marker :: Bytes.ofNatLE width v.toNat) v := by
  refine .marked h (Bytes.length_ofNatLE width v.toNat) ?_
  rw [Bytes.toNatLE_ofNatLE, Nat.mod_eq_of_lt hfit]

/-- **What is written is a form of its number.** -/
theorem form_encode (v : UInt64) : Form (encode v) v := by
  unfold encode
  split
  · next h8 =>
    have hle : v.toNat ≤ 0xfc := h8
    have hbyte : v.toUInt8.toNat = v.toNat := by
      rw [UInt64.toNat_toUInt8]
      omega
    exact .plain (by omega) hbyte.symm
  · split
    · next h16 =>
      have hle : v.toNat ≤ 0xffff := h16
      exact Marks.two.form (by omega)
    · split
      · next h32 =>
        have hle : v.toNat ≤ 0xffffffff := h32
        exact Marks.four.form (by omega)
      · exact Marks.eight.form v.toNat_lt

/-- A number that fits behind a marker is written with no more bytes than that. -/
theorem Marks.size_le (h : Marks marker width) (hfit : v.toNat < 256 ^ width) :
    size v ≤ width + 1 := by
  unfold size
  cases h with
  | two =>
    have hle : v.toNat ≤ 0xffff := by omega
    rw [if_pos (c := v ≤ 0xffff) (UInt64.le_iff_toNat_le.2 hle)]
    split <;> decide
  | four =>
    have hle : v.toNat ≤ 0xffffffff := by omega
    rw [if_pos (c := v ≤ 0xffffffff) (UInt64.le_iff_toNat_le.2 hle)]
    split
    · decide
    · split <;> decide
  | eight =>
    split
    · decide
    · split
      · decide
      · split <;> decide

/-- **No form is shorter than the written one.** -/
theorem Form.size_le (h : Form bs v) : size v ≤ bs.length := by
  cases h with
  | plain hsmall hvalue =>
    have hle : v.toNat ≤ 0xfc := by omega
    rw [size, if_pos (UInt64.le_iff_toNat_le.2 hle)]
    exact Nat.le_refl 1
  | marked hmarks hlen hvalue =>
    rw [List.length_cons, hlen]
    exact hmarks.size_le (hvalue ▸ hlen ▸ Bytes.toNatLE_lt _)

/-- **No two forms of a number have the same length.** -/
theorem Form.eq_of_length (h : Form bs v) (h' : Form cs v) (hlen : bs.length = cs.length) :
    bs = cs := by
  cases h with
  | plain hsmall hvalue =>
    cases h' with
    | plain hsmall' hvalue' => rw [UInt8.toNat_inj.1 (hvalue.symm.trans hvalue')]
    | marked hmarks hdigits =>
      have hpos := hmarks.width_pos
      rw [List.length_singleton, List.length_cons] at hlen
      omega
  | @marked marker width digits _ hmarks hdigits hvalue =>
    cases h' with
    | plain =>
      have hpos := hmarks.width_pos
      rw [List.length_singleton, List.length_cons] at hlen
      omega
    | @marked marker' width' digits' _ hmarks' hdigits' hvalue' =>
      -- as long as each other, so behind the same marker, with the same digits
      have hwidth : width' = width := by
        rw [List.length_cons, List.length_cons] at hlen
        omega
      subst hwidth
      rw [hmarks.unique hmarks', ← Bytes.ofNatLE_toNatLE digits, ← Bytes.ofNatLE_toNatLE digits',
        hdigits, hdigits', ← hvalue, ← hvalue']

theorem Form.eq_encode_or_longer (h : Form bs v) : bs = encode v ∨ size v < bs.length := by
  obtain hsame | hlonger := Nat.eq_or_lt_of_le h.size_le
  · left
    apply h.eq_of_length (form_encode v)
    rw [length_encode, hsame]
  · exact .inr hlonger

/-- A number whose form began another one would be read there. -/
theorem not_encode_prefix {w : UInt64} (hne : v ≠ w) : ¬ encode v <+: encode w := by
  rintro ⟨missing, hmissing⟩
  have hv := (form_encode v).run missing
  have hw := (form_encode w).run []
  rw [List.append_nil, ← hmissing, hv] at hw
  cases hw
  exact hne rfl

/-! ## §4. Writing and reading together -/

/-- **Var ints are exact and as short as can be.**  A number is written in as many bytes as are
reported and is read from them, whatever follows.  Whatever else is read to its end as that number
is longer, and no number is written as the beginning of another.  Of any byte string a form of one,
three, five or nine bytes is read, or the bytes end too early: before the first one, which takes
nothing, or behind a marker, which is all that is taken. -/
theorem shortest_and_exact :
    (∀ (v : UInt64) (out : Output) (tail : Bytes),
        (Put.varInt v).run out = (size v, out.append (encode v))
          ∧ (encode v).length = size v
          ∧ Get.varInt.run (encode v ++ tail) = .ok v tail)
      ∧ (∀ v bs, Get.varInt.run bs = .ok v [] → bs = encode v ∨ size v < bs.length)
      ∧ (∀ v w, v ≠ w → ¬ encode v <+: encode w)
      ∧ ∀ data,
        (∃ v taken rest, data = taken ++ rest ∧ Form taken v ∧ taken.length ∈ [1, 3, 5, 9]
            ∧ Get.varInt.run data = .ok v rest)
          ∨ (data = [] ∧ Get.varInt.run data = .error (.endOfData 1 0) [])
          ∨ ∃ marker width rest, data = marker :: rest ∧ Marks marker width ∧ rest.length < width
            ∧ Get.varInt.run data = .error (.endOfData width rest.length) rest := by
  refine ⟨?_, ?_, ?_, ?_⟩
  · intro v out tail
    refine ⟨?_, length_encode v, (form_encode v).run tail⟩
    rw [writes_varInt, length_encode]
  · intro v bs hrun
    obtain ⟨taken, rfl, hform⟩ := form_of_run hrun
    rw [List.append_nil]
    exact hform.eq_encode_or_longer
  · intro v w hne
    exact not_encode_prefix hne
  · intro data
    obtain ⟨v, taken, rest, hdata, hform, hrun⟩ | hfails := run_varInt_cases data
    · exact .inl ⟨v, taken, rest, hdata, hform, hform.length_mem, hrun⟩
    · exact .inr hfails

/-- The number seven is read from three bytes, but written in fewer; and two numbers whose forms
have the first two of three bytes in common. -/
theorem overlong_seven_read :
    Get.varInt.run [0xfd, 7, 0] = .ok 7 [] ∧ [0xfd, 7, 0] ≠ encode 7 ∧ size 7 < 3
      ∧ encode 253 = [0xfd, 0xfd, 0] ∧ encode 65533 = [0xfd, 0xfd, 0xff]
      ∧ ¬ encode 253 <+: encode 65533 := by
  obtain ⟨-, hshortest, hbegins, -⟩ := shortest_and_exact
  have hread : Get.varInt.run [0xfd, 7, 0] = .ok 7 [] := rfl
  have hother : [0xfd, 7, 0] ≠ encode 7 := by decide
  exact ⟨hread, hother, (hshortest 7 _ hread).resolve_left hother, by decide, by decide,
    hbegins 253 65533 (by decide)⟩

end HeaderPeer.Wire.VarInt
