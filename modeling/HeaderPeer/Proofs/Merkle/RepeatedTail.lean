/-
  HeaderPeer.Proofs.Merkle.RepeatedTail — lists of leaves that repeat their own tail.

  A list whose length is an odd multiple of 2^k can be made longer by a second copy of its last 2^k
  entries, and the longer list still has the same root: at level k the copy stands where a single
  last entry would be paired with itself.  The walk of `duplicate?` looks at neighbours only, so it
  sees such a copy when it is a single entry and in no other case.

  Main statements:
    * `root_repeatTail` — the longer list has the root of the shorter one.
    * `duplicate?_repeatTail` — among leaves that are all different, the walk finds the copy
      exactly when one entry was copied.
    * `merkleRoot_check_repeatTail` — what the block rule says of a list that repeats its tail: a
      copied last entry is refused as a mutation, a longer copy passes under the header that commits
      to the shorter list.
-/
import HeaderPeer.Rule.Block
import Mathlib.Algebra.Group.Nat.Defs
import Mathlib.Data.List.Chain

namespace HeaderPeer.Merkle

/-! ## §1. The root -/

/-- The leaves with a second copy of the last `2 ^ k` of them. -/
def repeatTail (k : Nat) (leaves : List Word256) : List Word256 :=
  leaves ++ leaves.drop (leaves.length - 2 ^ k)

/-- Two leaves or more have the root of the level above them. -/
theorem root_pairUp (h : Hasher) {leaves : List Word256} (hlen : 2 ≤ leaves.length) :
    root h (pairUp h leaves) = root h leaves := by
  match leaves, hlen with
  | left :: right :: rest, _ => rw [root]

/-- Two lists are paired up apart from each other if the first one leaves no entry single. -/
theorem pairUp_append (h : Hasher) (ys : List Word256) :
    ∀ xs : List Word256, xs.length % 2 = 0 → pairUp h (xs ++ ys) = pairUp h xs ++ pairUp h ys
  | [], _ => rfl
  | [_], heven => absurd heven (by simp)
  | left :: right :: rest, heven => by
    have hrest : rest.length % 2 = 0 := by
      simp only [List.length_cons] at heven
      omega
    show h.digestPair left right :: pairUp h (rest ++ ys) = _
    rw [pairUp_append h ys rest hrest]
    rfl

/-- The level above the entries from an even place on is the upper level from half that place on. -/
theorem pairUp_drop (h : Hasher) :
    ∀ (n : Nat) (xs : List Word256), pairUp h (xs.drop (2 * n)) = (pairUp h xs).drop n
  | 0, _ => rfl
  | n + 1, [] => by simp [pairUp]
  | n + 1, [_] => by
    rw [List.drop_eq_nil_of_le (by simp only [List.length_singleton]; omega)]
    simp [pairUp]
  | n + 1, _ :: _ :: rest => by
    show pairUp h (rest.drop (2 * n)) = (pairUp h rest).drop n
    exact pairUp_drop h n rest

/-- A single last entry may as well be written twice. -/
theorem pairUp_repeatLast (h : Hasher) {leaves : List Word256} (hodd : leaves.length % 2 = 1) :
    pairUp h (repeatTail 0 leaves) = pairUp h leaves := by
  obtain rfl | ⟨front, last, rfl⟩ := List.eq_nil_or_concat' leaves
  · simp at hodd
  · have heven : front.length % 2 = 0 := by
      rw [List.length_append, List.length_singleton] at hodd
      omega
    have hlast : (front ++ [last]).drop ((front ++ [last]).length - 2 ^ 0) = [last] := by
      simp
    rw [repeatTail, hlast, List.append_assoc, pairUp_append h _ _ heven,
      pairUp_append h _ _ heven]
    rfl

/-- **A repeated tail leaves the root as it is.**  Level by level both lists shrink to half their
length, until the copy is a single entry beside an odd number of others. -/
theorem root_repeatTail (h : Hasher) {m : Nat} (hodd : m % 2 = 1) (hm : 3 ≤ m) :
    ∀ (k : Nat) (leaves : List Word256), leaves.length = m * 2 ^ k →
      root h (repeatTail k leaves) = root h leaves
  | 0, leaves, hlen => by
    rw [Nat.pow_zero, Nat.mul_one] at hlen
    have hlong : 2 ≤ (repeatTail 0 leaves).length := by
      rw [repeatTail, List.length_append]
      omega
    rw [← root_pairUp h hlong, pairUp_repeatLast h (by rw [hlen]; exact hodd),
      root_pairUp h (by omega)]
  | k + 1, leaves, hlen => by
    have hpow : 2 ^ (k + 1) = 2 * 2 ^ k := by rw [Nat.pow_succ, Nat.mul_comm]
    have hdouble : leaves.length = 2 * (m * 2 ^ k) := by
      rw [hlen, hpow, Nat.mul_left_comm]
    have hpos : 0 < 2 ^ k := Nat.two_pow_pos k
    have hmany : 2 ^ k ≤ m * 2 ^ k := Nat.le_mul_of_pos_left _ (by omega)
    have hup : (pairUp h leaves).length = m * 2 ^ k := by
      rw [length_pairUp, hdouble]
      omega
    have htail : leaves.length - 2 ^ (k + 1) = 2 * (m * 2 ^ k - 2 ^ k) := by
      rw [hdouble, hpow, Nat.mul_sub]
    have hlong : 2 ≤ (repeatTail (k + 1) leaves).length := by
      rw [repeatTail, List.length_append]
      omega
    -- the copy begins at an even place of an even list, so it is paired up by itself
    have hlevel : pairUp h (repeatTail (k + 1) leaves) = repeatTail k (pairUp h leaves) := by
      rw [repeatTail, pairUp_append h _ _ (by omega), htail, pairUp_drop, repeatTail, hup]
    rw [← root_pairUp h hlong, hlevel, root_repeatTail h hodd hm k _ hup, root_pairUp h (by omega)]

/-! ## §2. The walk -/

/-- Doubling stays below the count and never falls behind the first guess. -/
theorem doubleBelow_bounds (count : Nat) : ∀ (steps guess : Nat), guess < count →
    guess ≤ doubleBelow count steps guess ∧ doubleBelow count steps guess < count
  | 0, guess, hlt => ⟨Nat.le_refl guess, hlt⟩
  | steps + 1, guess, hlt => by
    rw [doubleBelow]
    split
    · next hdouble =>
      obtain ⟨hge, hbelow⟩ := doubleBelow_bounds count steps (guess * 2) hdouble
      exact ⟨by omega, hbelow⟩
    · exact ⟨Nat.le_refl guess, hlt⟩

theorem safePoint_bounds {count : Nat} (hcount : 2 ≤ count) :
    1 ≤ safePoint count ∧ safePoint count < count :=
  doubleBelow_bounds count count 1 (by omega)

/-- Where the walk stops, an entry repeats its predecessor. -/
theorem walkBack_eq_some {hashes : Array Word256} {safe i : Nat} :
    ∀ {fuel position stride : Nat}, walkBack hashes safe fuel position stride = some i →
      safe ≤ i ∧ i ≤ position ∧ hashes[i]? = hashes[i - 1]?
  | 0, _, _, h => by cases h
  | fuel + 1, position, stride, h => by
    rw [walkBack] at h
    split at h
    · cases h
    · next hsafe =>
      split at h
      · next heq =>
        cases h
        exact ⟨by omega, Nat.le_refl _, heq⟩
      · -- the walk goes on, below where it was
        split at h
        · cases h
        · obtain ⟨hge, hle, heq⟩ := walkBack_eq_some h
          exact ⟨hge, by omega, heq⟩

/-- **The walk accuses no entry but one that repeats its predecessor.** -/
theorem duplicate?_eq_some {hashes : List Word256} {i : Nat} (h : duplicate? hashes = some i) :
    1 ≤ i ∧ i < hashes.length ∧ hashes[i]? = hashes[i - 1]? := by
  unfold duplicate? at h
  simp only at h
  split at h
  · cases h
  · next hcount =>
    obtain ⟨hge, hle, heq⟩ := walkBack_eq_some h
    have hsafe := (safePoint_bounds (Nat.le_of_not_lt hcount)).1
    rw [List.getElem?_toArray, List.getElem?_toArray] at heq
    exact ⟨by omega, by omega, heq⟩

/-- Where all neighbours differ, the walk finds nothing. -/
theorem duplicate?_eq_none {hashes : List Word256} (h : hashes.IsChain (· ≠ ·)) :
    duplicate? hashes = none := by
  cases hwalk : duplicate? hashes with
  | none => rfl
  | some i =>
    obtain ⟨hpos, hlt, heq⟩ := duplicate?_eq_some hwalk
    obtain ⟨j, rfl⟩ : ∃ j, i = j + 1 := ⟨i - 1, by omega⟩
    rw [Nat.add_sub_cancel, List.getElem?_eq_getElem hlt,
      List.getElem?_eq_getElem (by omega : j < hashes.length), Option.some.injEq] at heq
    exact absurd heq.symm (List.isChain_iff_getElem.1 h j hlt)

/-- A last entry that repeats its predecessor is found at once. -/
theorem duplicate?_of_last {hashes : List Word256} (hlen : 2 ≤ hashes.length)
    (hlast : hashes[hashes.length - 1]? = hashes[hashes.length - 2]?) :
    duplicate? hashes = some (hashes.length - 1) := by
  have hsafe := (safePoint_bounds hlen).2
  obtain ⟨fuel, hfuel⟩ : ∃ fuel, hashes.length = fuel + 1 := ⟨hashes.length - 1, by omega⟩
  unfold duplicate?
  simp only
  rw [if_neg (by omega)]
  conv => lhs; arg 3; rw [hfuel]
  rw [walkBack, if_neg (by omega), List.getElem?_toArray, List.getElem?_toArray,
    show hashes.length - 1 - 1 = hashes.length - 2 from by omega, if_pos hlast]

/-! ## §3. What the walk sees of a repeated tail -/

variable {leaves : List Word256} {m k : Nat}

/-- A repeated tail of two leaves or more puts no equal leaves side by side. -/
theorem isChain_repeatTail (hnodup : leaves.Nodup) (hlen : leaves.length = m * 2 ^ k)
    (hm : 1 ≤ m) (hk : 0 < k) : (repeatTail k leaves).IsChain (· ≠ ·) := by
  have hpow : 2 ≤ 2 ^ k := Nat.le_self_pow (by omega) 2
  have hmany : 2 ^ k ≤ m * 2 ^ k := Nat.le_mul_of_pos_left _ (by omega)
  rw [repeatTail, List.isChain_append]
  refine ⟨hnodup.isChain, (hnodup.sublist (List.drop_sublist _ _)).isChain, ?_⟩
  -- the seam: the last leaf, and the first of the copied ones, which stands before it
  intro x hx y hy hxy
  rw [List.getLast?_eq_getElem?, Option.mem_def] at hx
  rw [List.head?_drop, Option.mem_def] at hy
  have hsame := (List.getElem?_inj (by omega) hnodup).1 (hx.trans (hxy ▸ hy.symm))
  omega

/-- **The walk finds a repeated tail exactly when it is a single leaf.** -/
theorem duplicate?_repeatTail (hnodup : leaves.Nodup) (hlen : leaves.length = m * 2 ^ k)
    (hm : 1 ≤ m) :
    duplicate? (repeatTail k leaves) = if k = 0 then some leaves.length else none := by
  by_cases hk : k = 0
  · -- a single copy stands right behind the leaf it copies
    subst hk
    rw [Nat.pow_zero, Nat.mul_one] at hlen
    have hlong : (repeatTail 0 leaves).length = leaves.length + 1 := by
      rw [repeatTail, List.length_append, List.length_drop]
      omega
    have hlast : (repeatTail 0 leaves)[leaves.length]?
        = (repeatTail 0 leaves)[leaves.length - 1]? := by
      rw [repeatTail, List.getElem?_append_right (Nat.le_refl _),
        List.getElem?_append_left (by omega), List.getElem?_drop, Nat.sub_self]
      rfl
    rw [if_pos rfl, duplicate?_of_last (by omega) (by rw [hlong]; exact hlast), hlong,
      Nat.add_sub_cancel]
  · rw [if_neg hk]
    exact duplicate?_eq_none (isChain_repeatTail hnodup hlen hm (by omega))

/-! ## §4. The block rule -/

/-- **A block whose transactions repeat their tail is refused as a mutation exactly when the tail
is a single transaction.**  A longer copy is weighed by its root alone, and that is the root of the
list without the copy. -/
theorem merkleRoot_check_repeatTail (t : BlockTrial) (hnodup : leaves.Nodup)
    (hlen : leaves.length = m * 2 ^ k) (hodd : m % 2 = 1) (hm : 3 ≤ m)
    (htxids : t.block.txids = repeatTail k leaves) :
    ((duplicate? t.block.txids).isSome = true ↔ k = 0)
      ∧ (k = 0 → ∃ fault, BlockRule.merkleRoot.check t = .error fault
          ∧ fault.rejection.category = .mutated ∧ fault.rejection.reason = "bad-txns-duplicate")
      ∧ (0 < k → BlockRule.merkleRoot.check t
          = if root t.hasher leaves = t.block.header.merkleRoot then .ok ()
            else .error (.merkleRoot t.block.header.merkleRoot (root t.hasher leaves))) := by
  have hwalk := duplicate?_repeatTail hnodup hlen (by omega)
  have hroot := root_repeatTail t.hasher hodd hm k leaves hlen
  rw [htxids, hwalk]
  refine ⟨?_, ?_, ?_⟩
  · by_cases hk : k = 0 <;> simp [hk]
  · intro hk
    rw [if_pos hk] at hwalk
    refine ⟨.duplicateTx ((repeatTail k leaves).getD leaves.length 0) leaves.length, ?_, rfl, rfl⟩
    simp only [BlockRule.merkleRoot, htxids, hwalk]
  · intro hk
    rw [if_neg (by omega)] at hwalk
    simp only [BlockRule.merkleRoot, htxids, hwalk, hroot]

/-- A block that holds transactions with the given ids under a header with the given root. -/
def blockOfTxids (merkleRoot : Word256) (txids : List Word256) : Block where
  header :=
    { version := 1, previous := 0, merkleRoot, time := 0, bits := 0x207fffff, nonce := 0
      txCount := 0, hash := 0 }
  txs := txids.map fun txid =>
    { version := 1, inputs := [], outputs := [], lockTime := 0, txid, wtxid := txid }

/-- Six transactions and a copy of the last two pass under the header of the six. -/
theorem copied_pair_passes :
    BlockRule.merkleRoot.check
        ⟨blockOfTxids (root .sha256 [1, 2, 3, 4, 5, 6]) [1, 2, 3, 4, 5, 6, 5, 6],
          .regtest, .sha256⟩ = .ok () := by
  have hlen : ([1, 2, 3, 4, 5, 6] : List Word256).length = 3 * 2 ^ 1 := rfl
  have hcheck := (merkleRoot_check_repeatTail
    ⟨blockOfTxids (root .sha256 [1, 2, 3, 4, 5, 6]) [1, 2, 3, 4, 5, 6, 5, 6], .regtest, .sha256⟩
    (by decide) hlen rfl (by decide) rfl).2.2 (by decide)
  exact hcheck.trans (if_pos rfl)

/-- The walk does not find every repeated tail. -/
theorem not_duplicate?_isSome_repeatTail :
    ¬ ∀ (leaves : List Word256) (m k : Nat), leaves.Nodup → leaves.length = m * 2 ^ k →
        m % 2 = 1 → 3 ≤ m → (duplicate? (repeatTail k leaves)).isSome = true := by
  intro hall
  have hfound := hall [1, 2, 3, 4, 5, 6] 3 1 (by decide) rfl rfl (by decide)
  rw [show duplicate? (repeatTail 1 [1, 2, 3, 4, 5, 6]) = none from by decide +kernel] at hfound
  cases hfound

end HeaderPeer.Merkle
