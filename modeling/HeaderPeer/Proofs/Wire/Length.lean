/-
  HeaderPeer.Proofs.Wire.Length — how many bytes a writer adds.

  The size of a value is the number that its writer reports, and nothing in the type of a writer ties
  that number to the bytes.  `Adds` does: the writer adds the same bytes to every buffer, they are as
  many as the number says, and that is what it reports.  So sizes can be added up where writers are
  put together, without a look at what they write.

  Main statements:
    * `adds_byteArray`, `adds_list` — a count, and what it counts.
    * `size_of_adds` — the size of a value is the length of its encoding.
-/
import HeaderPeer.Proofs.Wire.Put
import Mathlib.Algebra.GroupWithZero.Nat

namespace HeaderPeer.Wire

/-- How many bytes a count of `n` takes on the wire. -/
def countSize (n : Nat) : Nat := VarInt.size (UInt64.ofNat n)

namespace Put

/-! ## §1. Putting writers together -/

/-- The writer adds `n` bytes to every buffer, always the same ones, and reports how many. -/
def Adds (p : Put) (n : Nat) : Prop := ∃ bs, p.Writes bs ∧ bs.length = n

theorem Adds.of_eq {p : Put} {m n : Nat} (h : p.Adds m) (heq : m = n) : p.Adds n := heq ▸ h

theorem adds_nothing : nothing.Adds 0 := ⟨[], writes_nothing, rfl⟩

theorem adds_fixed {width : Nat} {bs : Bytes} (h : bs.length = width) :
    (fixed width bs).Adds width :=
  ⟨bs, writes_fixed h, h⟩

theorem Adds.append {p q : Put} {m n : Nat} (hp : p.Adds m) (hq : q.Adds n) :
    (p ++ q).Adds (m + n) := by
  obtain ⟨bs, hbs, hm⟩ := hp
  obtain ⟨more, hmore, hn⟩ := hq
  refine ⟨bs ++ more, hbs.append hmore, ?_⟩
  rw [List.length_append, hm, hn]

/-! ## §2. Numbers, byte strings and lists -/

theorem adds_uint32LE (v : UInt32) : (uint32LE v).Adds 4 := adds_fixed (Bytes.length_ofNatLE 4 _)

theorem adds_int32LE (v : Int32) : (int32LE v).Adds 4 := adds_uint32LE v.toUInt32

theorem adds_int64LE (v : Int64) : (int64LE v).Adds 8 := adds_fixed (Bytes.length_ofNatLE 8 _)

theorem adds_word256 (w : Word256) : (word256 w).Adds 32 := adds_fixed (Word256.length_toBytes w)

theorem adds_count (n : Nat) : (count n).Adds (countSize n) := adds_fixed (VarInt.length_encode _)

theorem adds_byteArray (bs : Bytes) : (byteArray bs).Adds (countSize bs.length + bs.length) :=
  (adds_count bs.length).append (adds_fixed rfl)

section

variable {α : Type} {item : α → Put} {size : α → Nat}

theorem adds_each (h : ∀ a, (item a).Adds (size a)) (items : List α) :
    (each item items).Adds (items.map size).sum := by
  induction items with
  | nil => exact adds_nothing
  | cons a items ih =>
    rw [each_cons, List.map_cons, List.sum_cons]
    exact (h a).append ih

/-- **A list takes its count and the sum of what its items take.** -/
theorem adds_list (h : ∀ a, (item a).Adds (size a)) (items : List α) :
    (list item items).Adds (countSize items.length + (items.map size).sum) :=
  (adds_count items.length).append (adds_each h items)

end

end Put

/-! ## §3. Sizes -/

section

variable {α : Type} [Codec α] {l : Layout} {a : α} {n : Nat}

/-- **What a writer reports is the length of what it writes.** -/
theorem size_of_adds (h : (Codec.write l a).Adds n) : size l a = n ∧ (encode l a).length = n := by
  obtain ⟨bs, hwrites, hlen⟩ := h
  refine ⟨?_, ?_⟩
  · rw [size, hwrites]
    exact hlen
  · rw [encode_of_writes hwrites]
    exact hlen

end

end HeaderPeer.Wire
