/-
  HeaderPeer.Proofs.Merkle.Walk — the search for a repetition as the loops that it consists of.

  The search doubles a guess up to the safe point and then walks back in doubling strides.  Here both
  loops are told by rules, one for each way in which a round can go, without a bound on the number of
  rounds.  A rule asks for all that its round does: the two entries that are compared are there, and
  what is subtracted is no more than what it is subtracted from.  So a run by these rules is a run
  that ends and that never leaves the list.

  The walk has one because it stops above the first entry: the safe point is never zero, and the walk
  breaks off before a stride that is longer than what is left.

  Main statements:
    * `walks_walkBack` — from a place in the list the walk runs to its end.
    * `search_iff` — every search runs to its end, with the answer of `duplicate?`.
    * `duplicate?_safe` — what the search says of any list, and of a block without a repetition.
-/
import HeaderPeer.Proofs.Rule.Block

namespace HeaderPeer

namespace Merkle

/-! ## §1. The loops -/

/-- The doubling of a guess, up to the first one whose double is no longer below the count. -/
inductive Doubles (count : Nat) : (guess top : Nat) → Prop
  | stop {guess : Nat} (hend : count ≤ guess * 2) : Doubles count guess guess
  | double {guess top : Nat} (hgo : guess * 2 < count) (rest : Doubles count (guess * 2) top) :
      Doubles count guess top

/-- The walk compares the entry at a position with the one before it.  There is one before it, and
both are in the list. -/
structure Compares (hashes : List Word256) (position : Nat) (this before : Word256) : Prop where
  room : 1 ≤ position
  this : hashes[position]? = some this
  before : hashes[position - 1]? = some before

/-- The walk back from a position, with the length of the next stride, and what it finds. -/
inductive Walks (hashes : List Word256) (safe : Nat) :
    (position stride : Nat) → (found : Option Nat) → Prop
  | past {position stride : Nat} (hend : position < safe) : Walks hashes safe position stride none
  | found {position stride : Nat} {hash : Word256} (hgo : safe ≤ position)
      (hsame : Compares hashes position hash hash) :
      Walks hashes safe position stride (some position)
  | front {position stride : Nat} {this before : Word256} (hgo : safe ≤ position)
      (hlook : Compares hashes position this before) (hother : this ≠ before)
      (hshort : position < stride) : Walks hashes safe position stride none
  | back {position stride : Nat} {this before : Word256} {found : Option Nat}
      (hgo : safe ≤ position) (hlook : Compares hashes position this before)
      (hother : this ≠ before) (hroom : stride ≤ position)
      (rest : Walks hashes safe (position - stride) (stride * 2) found) :
      Walks hashes safe position stride found

/-- The whole search in a list, and what it finds. -/
inductive Search (hashes : List Word256) : (found : Option Nat) → Prop
  | few (hfew : hashes.length < 2) : Search hashes none
  | many {safe : Nat} {found : Option Nat} (hmany : 2 ≤ hashes.length)
      (hsafe : Doubles hashes.length 1 safe)
      (hwalk : Walks hashes safe (hashes.length - 1) (if hashes.length % 2 = 1 then 2 else 1) found) :
      Search hashes found

/-! ## §2. A run has one outcome -/

theorem Doubles.unique {count guess top top' : Nat} (h : Doubles count guess top)
    (h' : Doubles count guess top') : top = top' := by
  induction h with
  | stop hend =>
    cases h' with
    | stop => rfl
    | double hgo => omega
  | double hgo rest ih =>
    cases h' with
    | stop hend => omega
    | double _ rest' => exact ih rest'

/-- Where two different entries are compared, no entry is compared with its like. -/
theorem Compares.not_same {hashes : List Word256} {position : Nat} {this before hash : Word256}
    (h : Compares hashes position this before) (hother : this ≠ before) :
    ¬ Compares hashes position hash hash := by
  intro hsame
  have hthis : this = hash := Option.some.inj (h.this.symm.trans hsame.this)
  have hbefore : before = hash := Option.some.inj (h.before.symm.trans hsame.before)
  exact hother (hthis.trans hbefore.symm)

/-- No two rules apply at one place: the safe point, the comparison and the stride tell them
apart. -/
theorem Walks.unique {hashes : List Word256} {safe position stride : Nat}
    {found found' : Option Nat} (h : Walks hashes safe position stride found)
    (h' : Walks hashes safe position stride found') : found = found' := by
  induction h with
  | past hend =>
    cases h' with
    | past => rfl
    | found hgo => omega
    | front hgo => rfl
    | back hgo => omega
  | found hgo hsame =>
    cases h' with
    | past hend => omega
    | found => rfl
    | front _ hlook hother => exact absurd hsame (hlook.not_same hother)
    | back _ hlook hother => exact absurd hsame (hlook.not_same hother)
  | front hgo hlook hother hshort =>
    cases h' with
    | past => rfl
    | found _ hsame => exact absurd hsame (hlook.not_same hother)
    | front => rfl
    | back _ _ _ hroom => omega
  | back hgo hlook hother hroom rest ih =>
    cases h' with
    | past hend => omega
    | found _ hsame => exact absurd hsame (hlook.not_same hother)
    | front _ _ _ hshort => omega
    | back _ _ _ _ rest' => exact ih rest'

theorem Search.unique {hashes : List Word256} {found found' : Option Nat}
    (h : Search hashes found) (h' : Search hashes found') : found = found' := by
  cases h with
  | few hfew =>
    cases h' with
    | few => rfl
    | many hmany => omega
  | many hmany hsafe hwalk =>
    cases h' with
    | few hfew => omega
    | many _ hsafe' hwalk' =>
      cases hsafe.unique hsafe'
      exact hwalk.unique hwalk'

/-! ## §3. Every search runs to its end -/

/-- As many rounds as the guess is below the count are enough: each one adds at least one. -/
theorem doubles_doubleBelow (count : Nat) :
    ∀ (steps guess : Nat), 1 ≤ guess → count ≤ guess + steps →
      Doubles count guess (doubleBelow count steps guess)
  | 0, guess, hpos, hsteps => .stop (by omega)
  | steps + 1, guess, hpos, hsteps => by
    rw [doubleBelow]
    by_cases hgo : guess * 2 < count
    · rw [if_pos hgo]
      exact .double hgo (doubles_doubleBelow count steps (guess * 2) (by omega) (by omega))
    · rw [if_neg hgo]
      exact .stop (by omega)

/-- **The walk runs to its end from every place in the list**, if it stops above the first entry.
Each round that does not end the walk takes it nearer to the front, by the length of its stride. -/
theorem walks_walkBack {hashes : List Word256} {safe : Nat} (hsafe : 1 ≤ safe) :
    ∀ {fuel position stride : Nat}, position < hashes.length → position < fuel → 1 ≤ stride →
      Walks hashes safe position stride (walkBack hashes.toArray safe fuel position stride)
  | 0, position, _, _, hfuel, _ => absurd hfuel (Nat.not_lt_zero position)
  | fuel + 1, position, stride, hposition, hfuel, hstride => by
    rw [walkBack]
    by_cases hend : position < safe
    · rw [if_pos hend]
      exact .past hend
    · have hgo : safe ≤ position := Nat.le_of_not_lt hend
      have hlook : Compares hashes position hashes[position] hashes[position - 1] :=
        ⟨by omega, List.getElem?_eq_getElem hposition, List.getElem?_eq_getElem (by omega)⟩
      simp only [if_neg hend, List.getElem?_toArray, hlook.this, hlook.before, Option.some.injEq]
      by_cases hsame : hashes[position] = hashes[position - 1]
      · rw [if_pos hsame]
        rw [← hsame] at hlook
        exact .found hgo hlook
      · rw [if_neg hsame]
        by_cases hshort : position < stride
        · rw [if_pos hshort]
          exact .front hgo hlook hsame hshort
        · rw [if_neg hshort]
          exact .back hgo hlook hsame (Nat.le_of_not_lt hshort)
            (walks_walkBack hsafe (by omega) (by omega) (by omega))

theorem search_duplicate? (hashes : List Word256) : Search hashes (duplicate? hashes) := by
  unfold duplicate?
  by_cases hfew : hashes.length < 2
  · simp only [if_pos hfew]
    exact .few hfew
  · have hmany : 2 ≤ hashes.length := Nat.le_of_not_lt hfew
    simp only [if_neg hfew]
    have hstride : 1 ≤ if hashes.length % 2 = 1 then 2 else 1 := by split <;> omega
    refine .many hmany (doubles_doubleBelow hashes.length hashes.length 1 (by omega) (by omega)) ?_
    exact walks_walkBack (safePoint_bounds hmany).1 (by omega) (by omega) hstride

/-- **Every search runs to its end**, reads entries of the list only, and has one answer. -/
theorem search_iff {hashes : List Word256} {found : Option Nat} :
    Search hashes found ↔ found = duplicate? hashes := by
  constructor
  · intro h
    exact h.unique (search_duplicate? hashes)
  · rintro rfl
    exact search_duplicate? hashes

end Merkle

/-! ## §4. Blocks without a repetition -/

/-- A report of a repeated transaction comes from the walk. -/
theorem BlockFault.eq_duplicateTx {fault : BlockFault}
    (h : fault.rejection.reason = "bad-txns-duplicate") :
    ∃ txid position, fault = .duplicateTx txid position := by
  cases fault with
  | duplicateTx txid position => exact ⟨txid, position, rfl⟩
  | tx txid reason =>
    -- the reason of a transaction is kept, and none of them is this one
    change reason.rejection.reason = "bad-txns-duplicate" at h
    cases reason <;> simp [TxFault.rejection, Rejection.consensus] at h
  | _ => simp [rejection, Rejection.consensus] at h

/-- Of the usual rules one reports a repeated transaction, and it does so where the walk ended. -/
theorem StandardRule.duplicate?_of_check {t : BlockTrial} {r : StandardRule} {txid : Word256}
    {position : Nat} (h : r.rule.check t = .error (.duplicateTx txid position)) :
    Merkle.duplicate? t.block.txids = some position := by
  cases r with
  | merkleRoot =>
    obtain ⟨i, hash, hwalk, -, hfault⟩ | ⟨-, -, hfault⟩ := BlockRule.merkleRoot_eq_error_iff.1 h
    · cases hfault
      exact hwalk
    · cases hfault
  | size =>
    obtain ⟨-, hfault⟩ := BlockRule.size_eq_error_iff.1 h
    cases hfault
  | coinbase =>
    obtain ⟨-, hfault⟩ | ⟨-, -, hfault⟩ := BlockRule.coinbase_eq_error_iff.1 h
    · cases hfault
    · cases hfault
  | transactions =>
    obtain ⟨front, tx, rest, reason, -, -, -, hfault⟩ := BlockRule.transactions_eq_error_iff.1 h
    cases hfault

/-- **A block whose transactions are all different is not refused for a repetition**, by whichever of
the usual rules, in whatever order. -/
theorem BlockTrial.not_duplicate_of_nodup {t : BlockTrial} (hnodup : t.block.txids.Nodup)
    {rules : List StandardRule} {fault : BlockFault}
    (h : t.check (rules.map StandardRule.rule) = .error fault) :
    fault.rejection.reason ≠ "bad-txns-duplicate" := by
  intro hreason
  obtain ⟨txid, position, rfl⟩ := fault.eq_duplicateTx hreason
  obtain ⟨front, rule, rest, hrules, -, hrule⟩ := Except.forM_eq_error_iff.1 h
  obtain ⟨r, -, rfl⟩ := List.mem_map.1 (hrules ▸ List.mem_append_right front List.mem_cons_self)
  have hwalk := StandardRule.duplicate?_of_check hrule
  rw [Merkle.duplicate?_eq_none hnodup.isChain] at hwalk
  cases hwalk

namespace Merkle

/-- What a search in a list does and says. -/
structure SafeSearch (hashes : List Word256) : Prop where
  /-- It runs to its end, among the entries of the list. -/
  ends : ∀ {found}, Search hashes found ↔ found = duplicate? hashes
  /-- It accuses an entry only if that repeats the one before it. -/
  accuses : ∀ {i}, duplicate? hashes = some i →
    1 ≤ i ∧ i < hashes.length ∧ hashes[i]? = hashes[i - 1]?
  few : hashes.length < 2 → duplicate? hashes = none
  /-- It finds a last entry that repeats the one before it. -/
  last : 2 ≤ hashes.length → hashes[hashes.length - 1]? = hashes[hashes.length - 2]? →
    duplicate? hashes = some (hashes.length - 1)

/-- **The search is safe and accuses no clean list.**  It ends, stays in the list and subtracts
nothing from less; what it accuses repeats its predecessor, so that a block whose transactions are all
different is never refused for a repetition. -/
theorem duplicate?_safe (hashes : List Word256) :
    SafeSearch hashes
      ∧ (hashes.Nodup → ∀ (t : BlockTrial) (rules : List StandardRule) (fault : BlockFault),
          t.block.txids = hashes → t.check (rules.map StandardRule.rule) = .error fault →
            fault.rejection.reason ≠ "bad-txns-duplicate") := by
  refine ⟨⟨search_iff, duplicate?_eq_some, ?_, duplicate?_of_last⟩, ?_⟩
  · intro hfew
    unfold duplicate?
    exact if_pos hfew
  · rintro hnodup t rules fault rfl h
    exact t.not_duplicate_of_nodup hnodup h

/-- Three different transactions, which are nothing but their ids. -/
def bareTrial : BlockTrial :=
  ⟨blockOfTxids (root .sha256 [1, 2, 3]) [1, 2, 3], .regtest, .sha256⟩

/-- It commits to them, but the first one spends nothing. -/
theorem check_bareTrial :
    bareTrial.check ([.merkleRoot, .transactions].map StandardRule.rule)
      = .error (.tx 1 .noInputs) := by
  have hroot : BlockRule.merkleRoot.check bareTrial = .ok () :=
    BlockRule.merkleRoot_eq_ok_iff.2 ⟨by decide +kernel, rfl⟩
  exact BlockTrial.check_cons_eq_error_iff.2 (.inr ⟨hroot, rfl⟩)

/-- A last entry that is written twice is accused, and transactions that are all different are
refused for what they are. -/
theorem twice_seven_found :
    duplicate? [4, 7, 7] = some 2
      ∧ bareTrial.check ([.merkleRoot, .transactions].map StandardRule.rule)
          = .error (.tx 1 .noInputs)
      ∧ (BlockFault.tx 1 .noInputs).rejection.reason ≠ "bad-txns-duplicate" :=
  ⟨(duplicate?_safe [4, 7, 7]).1.last (by decide) rfl, check_bareTrial,
    (duplicate?_safe [1, 2, 3]).2 (by decide) bareTrial _ _ rfl check_bareTrial⟩

end Merkle

end HeaderPeer
