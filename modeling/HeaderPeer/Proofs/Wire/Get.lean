/-
  HeaderPeer.Proofs.Wire.Get — running readers.

  A reader that is put together of others is run one part at a time: where the first part succeeds
  the second goes on with what is left, and where it fails the whole fails with it.  At the bottom
  stands the reader of a number of bytes, which takes them all or takes nothing.

  Main statements: `run_bind`, `ok_of_run_bind`, `ok_of_run_bytes`.
-/
import HeaderPeer.Wire.Codec

namespace HeaderPeer.Wire

variable {α β : Type} {g : Get α} {k : α → Get β} {a : α} {b : β} {n : Nat} {bs data rest : Bytes}

/-! ## §1. One reader after another -/

theorem run_bind (h : g.run data = .ok a rest) : (g >>= k).run data = (k a).run rest := by
  show EStateM.bind g k data = _
  unfold EStateM.bind
  rw [show g data = .ok a rest from h]
  rfl

theorem run_bind_error {e : Error} (h : g.run data = .error e rest) :
    (g >>= k).run data = .error e rest := by
  show EStateM.bind g k data = _
  unfold EStateM.bind
  rw [show g data = .error e rest from h]

/-- Where two readers succeed one after the other, each of them did. -/
theorem ok_of_run_bind (h : (g >>= k).run data = .ok b rest) :
    ∃ a mid, g.run data = .ok a mid ∧ (k a).run mid = .ok b rest := by
  cases hg : g.run data with
  | ok a mid => exact ⟨a, mid, rfl, (run_bind hg).symm.trans h⟩
  | error e mid =>
    rw [run_bind_error hg] at h
    cases h

/-! ## §2. Bytes -/

theorem run_bytes (bs tail : Bytes) : (Get.bytes bs.length).run (bs ++ tail) = .ok bs tail := by
  show (let front := (bs ++ tail).take bs.length
    if front.length < bs.length then _ else EStateM.Result.ok front _) = _
  simp

/-- Where there are too few bytes, none is taken. -/
theorem run_bytes_short (h : data.length < n) :
    (Get.bytes n).run data = .error (.endOfData n data.length) data := by
  show (if (data.take n).length < n then _ else _) = _
  rw [if_pos]
  rw [List.length_take]
  omega

/-- What is given stood at the front, and is as long as was asked for. -/
theorem ok_of_run_bytes (h : (Get.bytes n).run data = .ok bs rest) :
    data = bs ++ rest ∧ bs.length = n := by
  by_cases hshort : data.length < n
  · rw [run_bytes_short hshort] at h
    cases h
  · have hlen : (data.take n).length = n := by
      rw [List.length_take]
      omega
    have hrun := run_bytes (data.take n) (data.drop n)
    rw [List.take_append_drop, hlen, h] at hrun
    cases hrun
    exact ⟨(List.take_append_drop n data).symm, hlen⟩

theorem run_uint8 (v : UInt8) (tail : Bytes) : Get.uint8.run (v :: tail) = .ok v tail := by
  have hdigit : (Get.natLE 1).run (v :: tail) = .ok v.toNat tail := run_bind (run_bytes [v] tail)
  have hbyte : Get.uint8.run (v :: tail) = .ok (UInt8.ofNat v.toNat) tail := run_bind hdigit
  rw [hbyte, UInt8.ofNat_toNat]

end HeaderPeer.Wire
