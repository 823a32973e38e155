/-
  HeaderPeer.Proofs.Wire.RoundTrip — reading what was written.

  A writer and a reader of one format are two programs that do not know of each other.  `Carries`
  ties them together for one value: what the writer adds is read as that value, whatever follows.
  It goes along with the way writers and readers are put together, so for a compound format it
  follows its text.

  Main statements: `carries_varInt`, `carries_byteArray`, `carries_text`, `carries_list`.
-/
import HeaderPeer.Proofs.Wire.VarInt

namespace HeaderPeer.Wire

/-! ## §1. Values that come back -/

/-- What `p` writes is read by `g` as `a`, and what follows it is left. -/
def Carries {α : Type} (p : Put) (g : Get α) (a : α) : Prop :=
  ∃ bs, p.Writes bs ∧ ∀ tail, g.run (bs ++ tail) = .ok a tail

section

variable {α β : Type} {p q : Put} {g : Get α} {k : α → Get β} {a : α} {b : β}

theorem carries_pure (a : α) : Carries .nothing (pure a) a :=
  ⟨[], Put.writes_nothing, fun _ => rfl⟩

/-- One value and then another. -/
theorem Carries.bind (ha : Carries p g a) (hb : Carries q (k a) b) :
    Carries (p ++ q) (g >>= k) b := by
  obtain ⟨bs, hp, hg⟩ := ha
  obtain ⟨more, hq, hk⟩ := hb
  refine ⟨bs ++ more, hp.append hq, ?_⟩
  intro tail
  rw [List.append_assoc, run_bind (hg (more ++ tail)), hk]

/-- Nothing more is read. -/
theorem Carries.finish (ha : Carries p g a) (hb : k a = pure b) : Carries p (g >>= k) b := by
  have h : Carries (p ++ .nothing) (g >>= k) b := ha.bind (hb ▸ carries_pure b)
  exact h

/-- Where something was written, the end is not reached. -/
theorem Carries.not_atEnd (ha : Carries p g a) (hsome : (p.run .empty).1 ≠ 0) (g' : Get α) :
    Carries p (do if ← Get.atEnd then g' else g) a := by
  obtain ⟨bs, hp, hg⟩ := ha
  refine ⟨bs, hp, ?_⟩
  intro tail
  have hend : Get.atEnd.run (bs ++ tail) = .ok false (bs ++ tail) := by
    -- the number that the writer reports is that of the bytes, so there is one
    rw [hp] at hsome
    cases bs with
    | nil => exact absurd rfl hsome
    | cons b bs => rfl
  rw [run_bind hend]
  exact hg tail

theorem Carries.map (ha : Carries p g a) (f : α → β) :
    Carries p (do return f (← g)) (f a) :=
  ha.finish rfl

end

/-! ## §2. Numbers -/

theorem carries_bytes {width : Nat} {bs : Bytes} (h : bs.length = width) :
    Carries (.fixed width bs) (Get.bytes width) bs := by
  subst h
  exact ⟨bs, Put.writes_fixed rfl, run_bytes bs⟩

theorem carries_natLE (width : Nat) {n : Nat} (h : n < 256 ^ width) :
    Carries (.fixed width (Bytes.ofNatLE width n)) (Get.natLE width) n := by
  have hread := (carries_bytes (Bytes.length_ofNatLE width n)).map Bytes.toNatLE
  rw [Bytes.toNatLE_ofNatLE, Nat.mod_eq_of_lt h] at hread
  exact hread

theorem carries_natBE (width : Nat) {n : Nat} (h : n < 256 ^ width) :
    Carries (.fixed width (Bytes.ofNatBE width n)) (Get.natBE width) n := by
  have hread := (carries_bytes (Bytes.length_ofNatBE width n)).map Bytes.toNatBE
  rw [Bytes.toNatBE_ofNatBE, Nat.mod_eq_of_lt h] at hread
  exact hread

theorem carries_uint8 (v : UInt8) : Carries (.uint8 v) Get.uint8 v :=
  ⟨[v], Put.writes_fixed rfl, run_uint8 v⟩

theorem carries_uint16BE (v : UInt16) : Carries (.uint16BE v) Get.uint16BE v := by
  have hread := (carries_natBE 2 v.toNat_lt).map UInt16.ofNat
  rw [UInt16.ofNat_toNat] at hread
  exact hread

theorem carries_uint32LE (v : UInt32) : Carries (.uint32LE v) Get.uint32LE v := by
  have hread := (carries_natLE 4 v.toNat_lt).map UInt32.ofNat
  rw [UInt32.ofNat_toNat] at hread
  exact hread

theorem carries_uint64LE (v : UInt64) : Carries (.uint64LE v) Get.uint64LE v := by
  have hread := (carries_natLE 8 v.toNat_lt).map UInt64.ofNat
  rw [UInt64.ofNat_toNat] at hread
  exact hread

theorem carries_int32LE (v : Int32) : Carries (.int32LE v) Get.int32LE v :=
  (carries_uint32LE v.toUInt32).map UInt32.toInt32

theorem carries_int64LE (v : Int64) : Carries (.int64LE v) Get.int64LE v :=
  (carries_uint64LE v.toUInt64).map UInt64.toInt64

theorem carries_bool (v : Bool) : Carries (.bool v) Get.bool v := by
  have hread := (carries_uint8 (if v then 1 else 0)).map fun b => decide (b ≠ 0)
  have hvalue : decide ((if v then (1 : UInt8) else 0) ≠ 0) = v := by cases v <;> rfl
  rw [hvalue] at hread
  exact hread

theorem carries_word256 (w : Word256) : Carries (.word256 w) Get.word256 w := by
  have hread := (carries_bytes (Word256.length_toBytes w)).map Word256.ofBytes
  rw [Word256.ofBytes_toBytes] at hread
  exact hread

/-! ## §3. Var ints -/

theorem carries_varInt (v : UInt64) : Carries (.varInt v) Get.varInt v :=
  ⟨VarInt.encode v, VarInt.writes_varInt v, (VarInt.form_encode v).run⟩

theorem carries_count {n : Nat} (h : n < 2 ^ 64) : Carries (.count n) Get.count n := by
  have hread := (carries_varInt (UInt64.ofNat n)).map UInt64.toNat
  rw [UInt64.toNat_ofNat', Nat.mod_eq_of_lt h] at hread
  exact hread

/-! ## §4. Counted things -/

theorem carries_byteArray? {bs : Bytes} (h : bs.length < 2 ^ 64) :
    Carries (.byteArray bs) Get.byteArray? (if bs.length = 0 then none else some bs) := by
  unfold Put.byteArray Get.byteArray?
  refine (carries_count h).bind ?_
  by_cases hempty : bs.length = 0
  · rw [if_pos hempty, if_pos hempty, List.eq_nil_of_length_eq_zero hempty]
    exact ⟨[], Put.writes_fixed rfl, fun _ => rfl⟩
  · rw [if_neg hempty, if_neg hempty]
    exact (carries_bytes rfl).map some

theorem carries_byteArray {bs : Bytes} (h : bs.length < 2 ^ 64) :
    Carries (.byteArray bs) Get.byteArray bs := by
  -- the empty byte string is read as none, and none as the empty byte string
  have hread := (carries_byteArray? h).map fun o => o.getD []
  by_cases hempty : bs.length = 0
  · rw [if_pos hempty, Option.getD_none] at hread
    rw [List.eq_nil_of_length_eq_zero hempty] at hread ⊢
    exact hread
  · rw [if_neg hempty, Option.getD_some] at hread
    exact hread

theorem carries_text {s : String} (h : (Bytes.ofText s).length < 2 ^ 64) :
    Carries (.text s) Get.text s := by
  unfold Put.text Put.byteArray Get.text
  refine (carries_count h).bind ?_
  refine (carries_bytes rfl).finish ?_
  rw [Bytes.toText?_ofText]

/-! ## §5. Lists -/

section

variable {α β : Type} {item : α → Put} {g : Get β} {f : α → β}

theorem carries_timesOnto (items : List α) (taken : List β)
    (h : ∀ a ∈ items, Carries (item a) g (f a)) :
    Carries (.each item items) (Get.timesOnto g items.length taken)
      (taken.reverse ++ items.map f) := by
  induction items generalizing taken with
  | nil =>
    rw [List.map_nil, List.append_nil]
    exact carries_pure taken.reverse
  | cons a items ih =>
    have hrest := ih (f a :: taken) fun b hb => h b (List.mem_cons_of_mem a hb)
    -- what was taken stands in reverse, so the new item comes right before the rest
    rw [List.reverse_cons, List.append_assoc] at hrest
    rw [Put.each_cons]
    exact (h a List.mem_cons_self).bind hrest

theorem carries_each (items : List α) (h : ∀ a ∈ items, Carries (item a) g (f a)) :
    Carries (.each item items) (Get.times g items.length) (items.map f) :=
  carries_timesOnto items [] h

/-- A list comes back, item by item, if a count can say how long it is. -/
theorem carries_list {items : List α} (hlen : items.length < 2 ^ 64)
    (h : ∀ a ∈ items, Carries (item a) g (f a)) :
    Carries (.list item items) (Get.list g) (items.map f) :=
  (carries_count hlen).bind (carries_each items h)

theorem carries_list_same {g : Get α} {items : List α} (hlen : items.length < 2 ^ 64)
    (h : ∀ a ∈ items, Carries (item a) g a) : Carries (.list item items) (Get.list g) items := by
  have hlist := carries_list hlen h
  rw [List.map_id'] at hlist
  exact hlist

end

/-! ## §6. What was encoded, and what is decoded -/

section

variable {α : Type} [Codec α] {l : Layout} {v a : α} {data rest : Bytes}

/-- What is encoded is read as what it carries, whatever follows. -/
theorem Carries.run_encode (h : Carries (Codec.write l v) (Codec.read l) a) (tail : Bytes) :
    (Codec.read l : Get α).run (encode l v ++ tail) = .ok a tail := by
  obtain ⟨bs, hwrites, hread⟩ := h
  rw [encode_of_writes hwrites]
  exact hread tail

/-- What is encoded is read to its end. -/
theorem Carries.run_whole (h : Carries (Codec.write l v) (Codec.read l) a) :
    (Codec.read l : Get α).run (encode l v) = .ok a [] := by
  have hread := h.run_encode []
  rw [List.append_nil] at hread
  exact hread

/-- **What is encoded alike comes back alike.** -/
theorem Carries.eq_of_encode_eq {w b : α} (hv : Carries (Codec.write l v) (Codec.read l) a)
    (hw : Carries (Codec.write l w) (Codec.read l) b) (h : encode l v = encode l w) : a = b := by
  have hread := hv.run_whole
  rw [h, hw.run_whole] at hread
  cases hread
  rfl

theorem decode_of_run_ok (h : (Codec.read l : Get α).run data = .ok a rest) :
    decode l data = .ok a := by
  rw [decode, h]

theorem decode_of_run_error {e : Error} (h : (Codec.read l : Get α).run data = .error e rest) :
    (decode l data : Except Error α) = .error e := by
  rw [decode, h]

end

end HeaderPeer.Wire
