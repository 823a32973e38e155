/-
  HeaderPeer.Proofs.Word256.Limbs — 256-bit numbers, held in four limbs.

  A machine holds a word in four limbs of sixty-four bits.  A number has one list of limbs only
  (`ofDigits_inj`), so what is said of the number settles what is in the limbs: they are those that
  the word was made of, and they are read from the bytes and written to them eight bytes at a time.
  Two words are compared from the most significant limbs on, and the first that differ decide; that
  is the order of the numbers.

  Main statements:
    * `limbs_ofLimbs`, `ofLimbs_limbs` — words and their limbs.
    * `limbs_ofBytes`, `toBytes_eq_limbBytes` — bytes and limbs.
    * `compareLimbs_eq` — comparing limbs is comparing numbers.
-/
import HeaderPeer.Proofs.Bytes

namespace HeaderPeer.Word256

/-! ## §1. Digits -/

/-- The number with the given digits, least significant digit first. -/
def ofDigits : List UInt64 → Nat
  | [] => 0
  | d :: ds => ofDigits ds * UInt64.size + d.toNat

/-- Digits are told from the number, if it is known how many there are. -/
theorem ofDigits_inj : ∀ {ds es : List UInt64}, ds.length = es.length →
    ofDigits ds = ofDigits es → ds = es := by
  intro ds
  induction ds with
  | nil =>
    intro es hlength _
    exact (List.length_eq_zero_iff.1 hlength.symm).symm
  | cons d ds ih =>
    intro es hlength heq
    cases es with
    | nil => cases hlength
    | cons e es =>
      have hd : d.toNat < UInt64.size := d.toNat_lt_size
      have he : e.toNat < UInt64.size := e.toNat_lt_size
      simp only [ofDigits, UInt64.size] at heq hd he
      have hfirst : d = e := UInt64.toNat_inj.1 (by omega)
      have hrest : ds = es := ih (Nat.succ.inj hlength) (by omega)
      rw [hfirst, hrest]

/-- A number has the limbs of its word as its digits. -/
theorem ofDigits_limbs (w : Word256) : ofDigits w.limbs.toList = w.toNat := by
  have hw := w.isLt
  show (((0 * UInt64.size + (UInt64.ofNat (w.toNat >>> 192)).toNat) * UInt64.size
    + (UInt64.ofNat (w.toNat >>> 128)).toNat) * UInt64.size
      + (UInt64.ofNat (w.toNat >>> 64)).toNat) * UInt64.size + (UInt64.ofNat w.toNat).toNat = _
  simp only [UInt64.toNat_ofNat', Nat.shiftRight_eq_div_pow, UInt64.size]
  omega

/-! ## §2. Limbs -/

theorem toNat_ofLimbs (v : Vector UInt64 4) : (ofLimbs v).toNat = ofDigits v.toList := by
  obtain ⟨⟨l⟩, hl⟩ := v
  match l, hl with
  | [a, b, c, d], _ =>
    have ha := a.toNat_lt
    have hb := b.toNat_lt
    have hc := c.toNat_lt
    have hd := d.toNat_lt
    show (BitVec.ofNat 256 (a.toNat + b.toNat <<< 64 + c.toNat <<< 128 + d.toNat <<< 192)).toNat
      = (((0 * UInt64.size + d.toNat) * UInt64.size + c.toNat) * UInt64.size + b.toNat)
        * UInt64.size + a.toNat
    simp only [BitVec.toNat_ofNat, Nat.shiftLeft_eq, UInt64.size]
    omega

/-- A word is made of its limbs. -/
theorem ofLimbs_limbs (w : Word256) : ofLimbs w.limbs = w := by
  apply BitVec.eq_of_toNat_eq
  rw [toNat_ofLimbs, ofDigits_limbs]

/-- The limbs of a word are those that it was made of. -/
theorem limbs_ofLimbs (v : Vector UInt64 4) : (ofLimbs v).limbs = v := by
  apply Vector.toList_inj.1
  refine ofDigits_inj ((ofLimbs v).limbs.length_toList.trans v.length_toList.symm) ?_
  rw [ofDigits_limbs, toNat_ofLimbs]

/-! ## §3. Bytes -/

/-- The limbs that stand in bytes, eight bytes for each. -/
def limbsOfBytes : (count : Nat) → Bytes → List UInt64
  | 0, _ => []
  | count + 1, bs => UInt64.ofNat (Bytes.toNatLE (bs.take 8)) :: limbsOfBytes count (bs.drop 8)

/-- The bytes of limbs, eight for each. -/
def limbBytes (ds : List UInt64) : Bytes := ds.flatMap fun d => Bytes.ofNatLE 8 d.toNat

theorem length_limbsOfBytes (count : Nat) (bs : Bytes) :
    (limbsOfBytes count bs).length = count := by
  induction count generalizing bs with
  | zero => rfl
  | succ count ih => rw [limbsOfBytes, List.length_cons, ih]

theorem length_limbBytes (ds : List UInt64) : (limbBytes ds).length = 8 * ds.length := by
  induction ds with
  | nil => rfl
  | cons d ds ih =>
    have hcons : limbBytes (d :: ds) = Bytes.ofNatLE 8 d.toNat ++ limbBytes ds := rfl
    rw [hcons, List.length_append, Bytes.length_ofNatLE, ih, List.length_cons]
    omega

/-- Limbs that are read from bytes denote the number that the bytes denote. -/
theorem ofDigits_limbsOfBytes {count : Nat} {bs : Bytes} (h : bs.length = 8 * count) :
    ofDigits (limbsOfBytes count bs) = bs.toNatLE := by
  induction count generalizing bs with
  | zero =>
    rw [List.length_eq_zero_iff.1 h]
    rfl
  | succ count ih =>
    have hfirst : (bs.take 8).length = 8 := List.length_take_of_le (by omega)
    have hlt := Bytes.toNatLE_lt (bs.take 8)
    have hsplit := Bytes.toNatLE_append (bs.take 8) (bs.drop 8)
    rw [List.take_append_drop, hfirst] at hsplit
    rw [hfirst] at hlt
    have hdigit : (UInt64.ofNat (Bytes.toNatLE (bs.take 8))).toNat = Bytes.toNatLE (bs.take 8) :=
      UInt64.toNat_ofNat_of_lt' hlt
    have hrest : (bs.drop 8).length = 8 * count := by
      rw [List.length_drop]
      omega
    rw [limbsOfBytes, ofDigits, ih hrest, hdigit, hsplit, UInt64.size]
    omega

/-- Bytes that are written for limbs denote the number that the limbs denote. -/
theorem toNatLE_limbBytes (ds : List UInt64) : (limbBytes ds).toNatLE = ofDigits ds := by
  induction ds with
  | nil => rfl
  | cons d ds ih =>
    have hcons : limbBytes (d :: ds) = Bytes.ofNatLE 8 d.toNat ++ limbBytes ds := rfl
    have hd := d.toNat_lt
    rw [hcons, Bytes.toNatLE_append, Bytes.toNatLE_ofNatLE, Bytes.length_ofNatLE, ih, ofDigits,
      UInt64.size]
    omega

/-- **A word that is read from bytes has the limbs that stand there**, eight bytes for each. -/
theorem limbs_ofBytes {bs : Bytes} (h : bs.length = 32) :
    (ofBytes bs).limbs.toList = limbsOfBytes 4 bs := by
  have hlt : bs.toNatLE < 2 ^ 256 := by
    have hbytes := Bytes.toNatLE_lt bs
    rw [h] at hbytes
    exact hbytes
  refine ofDigits_inj ?_ ?_
  · rw [Vector.length_toList, length_limbsOfBytes]
  · rw [ofDigits_limbs, ofDigits_limbsOfBytes h, ofBytes, BitVec.toNat_ofNat,
      Nat.mod_eq_of_lt hlt]

/-- **The bytes of a word are those of its limbs.** -/
theorem toBytes_eq_limbBytes (w : Word256) : w.toBytes = limbBytes w.limbs.toList := by
  have hlength : (limbBytes w.limbs.toList).length = 32 := by
    rw [length_limbBytes, Vector.length_toList]
  rw [toBytes, ← ofDigits_limbs, ← toNatLE_limbBytes, ← hlength, Bytes.ofNatLE_toNatLE]

/-! ## §4. Order -/

/-- Compares two numbers digit by digit.  The least significant digit comes first in the list, and
is looked at last. -/
def compareDigits : List UInt64 → List UInt64 → Ordering
  | d :: ds, e :: es => (compareDigits ds es).then (compare d e)
  | _, _ => .eq

/-- Compares two words limb by limb, from the most significant limb on. -/
def compareLimbs (a b : Word256) : Ordering := compareDigits a.limbs.toList b.limbs.toList

/-- Of two numbers the leading parts decide, unless they are equal. -/
theorem compare_of_digits {unit high high' low low' : Nat} (hlow : low < unit)
    (hlow' : low' < unit) :
    compare (high * unit + low) (high' * unit + low')
      = (compare high high').then (compare low low') := by
  rcases Nat.lt_trichotomy high high' with hlt | rfl | hgt
  · have hroom : (high + 1) * unit ≤ high' * unit := Nat.mul_le_mul_right unit hlt
    rw [Nat.add_mul, Nat.one_mul] at hroom
    rw [Nat.compare_eq_lt.2 hlt, Nat.compare_eq_lt.2 (by omega)]
    rfl
  · rw [Nat.compare_eq_eq.2 rfl, Ordering.eq_then]
    rcases Nat.lt_trichotomy low low' with hlt | rfl | hgt
    · rw [Nat.compare_eq_lt.2 hlt, Nat.compare_eq_lt.2 (by omega)]
    · rw [Nat.compare_eq_eq.2 rfl, Nat.compare_eq_eq.2 rfl]
    · rw [Nat.compare_eq_gt.2 hgt, Nat.compare_eq_gt.2 (by omega)]
  · have hroom : (high' + 1) * unit ≤ high * unit := Nat.mul_le_mul_right unit hgt
    rw [Nat.add_mul, Nat.one_mul] at hroom
    rw [Nat.compare_eq_gt.2 hgt, Nat.compare_eq_gt.2 (by omega)]
    rfl

theorem compare_toNat (a b : UInt64) : compare a.toNat b.toNat = compare a b := by
  show (if a.toNat < b.toNat then .lt else if a.toNat = b.toNat then .eq else .gt)
    = if a < b then Ordering.lt else if a = b then .eq else .gt
  simp only [UInt64.lt_iff_toNat_lt, UInt64.toNat_inj]

/-- The digits decide in the order in which they are looked at.  The induction takes off the least
significant ones. -/
theorem compareDigits_eq : ∀ {ds es : List UInt64}, ds.length = es.length →
    compareDigits ds es = compare (ofDigits ds) (ofDigits es) := by
  intro ds
  induction ds with
  | nil =>
    intro es hlength
    rw [List.length_eq_zero_iff.1 hlength.symm]
    rfl
  | cons d ds ih =>
    intro es hlength
    cases es with
    | nil => cases hlength
    | cons e es =>
      rw [compareDigits, ofDigits, ofDigits, compare_of_digits d.toNat_lt_size e.toNat_lt_size,
        compare_toNat, ih (Nat.succ.inj hlength)]

/-- **Comparing limbs is comparing numbers.** -/
theorem compareLimbs_eq (a b : Word256) : compareLimbs a b = compare a.toNat b.toNat := by
  rw [compareLimbs, compareDigits_eq (a.limbs.length_toList.trans b.limbs.length_toList.symm),
    ofDigits_limbs, ofDigits_limbs]

end HeaderPeer.Word256
