/-
  HeaderPeer.Proofs.Rule.Access — the rules of blocks read nothing that is not there.

  The rules look at some entries by their index: the walk at neighbours, the root at the one entry
  that is left, the search for a second coinbase at what follows the first transaction, the check of
  a coinbase at its first input.  Here each of them is written a second time, in a form that has no
  result at all where an index is out of range, and is shown to have the result of the first form.
  The rules may come in any order, so none relies on what another one has made sure of.

  Main statements:
    * `walkBackAt_eq` — the walk stays among the entries, and ends.
    * `StandardRule.checkAt_eq` — no rule reads out of range, whatever the block.
    * `StandardRule.checkAt_any_order` — nor do the rules in any order.
-/
import HeaderPeer.Proofs.Merkle.RepeatedTail

namespace HeaderPeer

/-! ## §1. Checks that read by index -/

/-- A check that reads lists by index.  It has no result, not even a fault, where it asks for an
entry that is not there. -/
abbrev Access (ε : Type) := ExceptT ε Option

namespace Access

variable {ε α β : Type}

/-- A check that has a result. -/
def ofExcept (r : Except ε α) : Access ε α := ExceptT.mk (some r)

/-- What a reading comes to, if it comes to anything. -/
def reading (found : Option α) : Access ε α := ExceptT.lift found

/-- The entry at an index. -/
def entry (entries : List α) (i : Nat) : Access ε α := reading entries[i]?

/-- The entries from an index on; the end of the list is an index, too. -/
def slice (entries : List α) (start : Nat) : Access ε (List α) :=
  reading (if start ≤ entries.length then some (entries.drop start) else none)

theorem reading_some (a : α) : (reading (some a) : Access ε α) = pure a := rfl

/-- Checks with results, one after the other, have a result. -/
theorem ofExcept_bind (x : Except ε α) (f : α → Except ε β) :
    (ofExcept x >>= fun a => ofExcept (f a)) = ofExcept (x >>= f) := by
  cases x <;> rfl

theorem ofExcept_ite (p : Prop) [Decidable p] (x y : Except ε α) :
    ofExcept (if p then x else y) = if p then ofExcept x else ofExcept y :=
  apply_ite ofExcept p x y

/-- A check of every entry of a list has a result if each of them has. -/
theorem forM_ofExcept (f : α → Except ε Unit) (xs : List α) :
    (xs.forM fun x => ofExcept (f x)) = ofExcept (xs.forM f) := by
  induction xs with
  | nil => rfl
  | cons x rest ih =>
    show (ofExcept (f x) >>= fun _ => rest.forM fun x => ofExcept (f x)) = _
    rw [ih, ofExcept_bind]
    rfl

end Access

/-! ## §2. The walk and the root -/

namespace Merkle

/-- The walk of `walkBack`, without a result where an entry that it compares is not there and where
it is still going on after `fuel` steps. -/
def walkBackAt (hashes : Array Word256) (safe : Nat) :
    (fuel position stride : Nat) → Option (Option Nat)
  | 0, _, _ => none
  | fuel + 1, position, stride =>
    if position < safe then some none
    -- nothing stands before the first entry
    else if position = 0 then none
    else
      match hashes[position]?, hashes[position - 1]? with
      | some this, some before =>
        if this = before then some (some position)
        else if position < stride then some none
        else walkBackAt hashes safe fuel (position - stride) (stride * 2)
      | _, _ => none

def duplicateAt (hashes : List Word256) : Option (Option Nat) :=
  let count := hashes.length
  if count < 2 then some none
  else
    walkBackAt hashes.toArray (safePoint count) count (count - 1)
      (if count % 2 = 1 then 2 else 1)

/-- **The walk stays among the entries, and ends.**  It stops above the first entry, so every entry
it looks at has one before it, and each step brings it nearer to the front. -/
theorem walkBackAt_eq {hashes : Array Word256} {safe : Nat} (hsafe : 1 ≤ safe) :
    ∀ {fuel position stride : Nat}, position < hashes.size → position < fuel → 1 ≤ stride →
      walkBackAt hashes safe fuel position stride = some (walkBack hashes safe fuel position stride)
  | 0, position, _, _, hfuel, _ => absurd hfuel (Nat.not_lt_zero position)
  | fuel + 1, position, stride, hposition, hfuel, hstride => by
    rw [walkBackAt, walkBack]
    by_cases hend : position < safe
    · rw [if_pos hend, if_pos hend]
    · have hthis := Array.getElem?_eq_getElem hposition
      have hbefore := Array.getElem?_eq_getElem (show position - 1 < hashes.size by omega)
      rw [if_neg hend, if_neg hend, if_neg (by omega), hthis, hbefore]
      simp only [Option.some.injEq]
      by_cases hsame : hashes[position] = hashes[position - 1]
      · rw [if_pos hsame, if_pos hsame]
      · rw [if_neg hsame, if_neg hsame]
        by_cases hfront : position < stride
        · rw [if_pos hfront, if_pos hfront]
        · rw [if_neg hfront, if_neg hfront]
          exact walkBackAt_eq hsafe (by omega) (by omega) (by omega)

theorem duplicateAt_eq (hashes : List Word256) : duplicateAt hashes = some (duplicate? hashes) := by
  unfold duplicateAt duplicate?
  by_cases hfew : hashes.length < 2
  · simp only [if_pos hfew]
  · simp only [if_neg hfew]
    refine walkBackAt_eq (safePoint_bounds (Nat.le_of_not_lt hfew)).1 ?_ (by omega) ?_
    · rw [List.size_toArray]
      omega
    · split <;> omega

/-- What is reported of a repetition is one of the entries. -/
theorem getElem?_of_duplicate? {hashes : List Word256} {i : Nat} (h : duplicate? hashes = some i) :
    hashes[i]? = some (hashes.getD i 0) := by
  obtain ⟨-, hlt, -⟩ := duplicate?_eq_some h
  rw [List.getD_eq_getElem?_getD, List.getElem?_eq_getElem hlt]
  rfl

/-- The one entry that is left when levels have been paired up, read by its index. -/
def climb (h : Hasher) (level : List Word256) : Option Word256 :=
  if 1 < level.length then climb h (pairUp h level) else level[0]?
termination_by level.length
decreasing_by
  rw [length_pairUp]
  omega

def rootAt (h : Hasher) (leaves : List Word256) : Option Word256 :=
  if leaves = [] then some 0 else climb h leaves

/-- No level runs empty. -/
theorem climb_eq (h : Hasher) (level : List Word256) (hsome : level ≠ []) :
    climb h level = some (root h level) := by
  induction level using climb.induct h with
  | case1 level hmany ih =>
    have hup : pairUp h level ≠ [] := by
      rw [ne_eq, ← List.length_eq_zero_iff, length_pairUp]
      omega
    rw [climb, if_pos hmany, ih hup, root_pairUp h hmany]
  | case2 level hfew =>
    match level, hsome, hfew with
    | [single], _, _ => rw [climb, if_neg (by simp), root]; rfl
    | _ :: _ :: _, _, hfew => exact absurd hfew (by simp)

theorem rootAt_eq (h : Hasher) (leaves : List Word256) :
    rootAt h leaves = some (root h leaves) := by
  unfold rootAt
  by_cases hnone : leaves = []
  · rw [if_pos hnone, hnone, root]
  · rw [if_neg hnone, climb_eq h leaves hnone]

end Merkle

/-! ## §3. Transactions -/

namespace Tx

variable {ε : Type}

def isCoinbaseAt (tx : Tx) : Access ε Bool := do
  if tx.inputs.length = 1 then
    let input ← Access.entry tx.inputs 0
    return input.previous.isNull
  else return false

def checkNullsAt (tx : Tx) : Access TxFault Unit := do
  if ← tx.isCoinbaseAt then
    let input ← Access.entry tx.inputs 0
    if input.script.length < 2 || 100 < input.script.length then
      throw (.coinbaseScript input.script.length)
  else if tx.inputs.any fun input => input.previous.isNull then
    throw .nullOutpoint

def checkAt (p : Params) (tx : Tx) : Access TxFault Unit := do
  if tx.inputs.isEmpty then throw .noInputs
  if tx.outputs.isEmpty then throw .noOutputs
  if p.overweight tx.strippedSize then throw (.oversize tx.strippedSize)
  Access.ofExcept (checkOutputsFrom p 0 0 tx.outputs)
  Access.ofExcept (checkSpends tx.inputs)
  checkNullsAt tx

theorem isCoinbaseAt_eq (tx : Tx) : (tx.isCoinbaseAt : Access ε Bool) = pure tx.isCoinbase := by
  unfold isCoinbaseAt isCoinbase
  match tx.inputs with
  | [] => rfl
  | [_] => rfl
  | _ :: _ :: _ => rfl

/-- The first input is looked at only where there is one. -/
theorem checkNullsAt_eq (tx : Tx) : checkNullsAt tx = Access.ofExcept (checkNulls tx.inputs) := by
  unfold checkNullsAt
  rw [isCoinbaseAt_eq, pure_bind]
  unfold isCoinbase checkNulls
  match tx.inputs with
  | [] => rfl
  | [input] =>
    simp only [pure_bind, Access.entry, List.getElem?_cons_zero, Access.reading_some,
      List.any_cons, List.any_nil, Bool.or_false]
    by_cases hnull : input.previous.isNull = true
    · simp only [hnull, if_true, Bool.true_and, Access.ofExcept_ite]
      rfl
    · simp only [hnull, Bool.false_and]
      rfl
  | first :: second :: rest =>
    rw [Access.ofExcept_ite]
    rfl

theorem checkAt_eq (p : Params) (tx : Tx) : tx.checkAt p = Access.ofExcept (tx.check p) := by
  unfold checkAt check
  rw [checkNullsAt_eq]
  cases tx.inputs.isEmpty with
  | true => rfl
  | false =>
    cases tx.outputs.isEmpty with
    | true => rfl
    | false =>
      cases p.overweight tx.strippedSize with
      | true => rfl
      | false =>
        -- what is left are three checks in a row
        show (Access.ofExcept (checkOutputsFrom p 0 0 tx.outputs) >>= fun _ =>
          Access.ofExcept (checkSpends tx.inputs) >>= fun _ =>
            Access.ofExcept (checkNulls tx.inputs)) = _
        rw [Access.ofExcept_bind, Access.ofExcept_bind]
        rfl

end Tx

/-! ## §4. Rules -/

/-- The names of the usual rules, for lists of them in any order. -/
inductive StandardRule where
  | merkleRoot
  | size
  | coinbase
  | transactions
  deriving DecidableEq, Repr

namespace StandardRule

def rule : StandardRule → BlockRule
  | merkleRoot => .merkleRoot
  | size => .size
  | coinbase => .coinbase
  | transactions => .transactions

def merkleRootAt (t : BlockTrial) : Access BlockFault Unit := do
  match ← Access.reading (Merkle.duplicateAt t.block.txids) with
  | some position =>
    let txid ← Access.entry t.block.txids position
    throw (.duplicateTx txid position)
  | none =>
    let computed ← Access.reading (Merkle.rootAt t.hasher t.block.txids)
    if computed = t.block.header.merkleRoot then return ()
    else throw (.merkleRoot t.block.header.merkleRoot computed)

def coinbaseAt (t : BlockTrial) : Access BlockFault Unit := do
  match t.block.txs.head? with
  | none => throw .noCoinbase
  | some first =>
    if ← first.isCoinbaseAt then
      let others ← Access.slice t.block.txs 1
      if ← others.anyM Tx.isCoinbaseAt then throw .manyCoinbases
    else throw .noCoinbase

def transactionsAt (t : BlockTrial) : Access BlockFault Unit :=
  t.block.txs.forM fun tx => (tx.checkAt t.params).adapt (BlockFault.tx tx.txid)

/-- What a rule says, if all that it reads is there. -/
def checkAt (t : BlockTrial) : StandardRule → Access BlockFault Unit
  | merkleRoot => merkleRootAt t
  -- numbers only
  | size => Access.ofExcept (BlockRule.size.check t)
  | coinbase => coinbaseAt t
  | transactions => transactionsAt t

theorem merkleRootAt_eq (t : BlockTrial) :
    merkleRootAt t = Access.ofExcept (BlockRule.merkleRoot.check t) := by
  unfold merkleRootAt
  rw [Merkle.duplicateAt_eq, Merkle.rootAt_eq, Access.reading_some, pure_bind, Access.reading_some]
  simp only [BlockRule.merkleRoot]
  cases hwalk : Merkle.duplicate? t.block.txids with
  | some position =>
    simp only [pure_bind, Access.entry, Merkle.getElem?_of_duplicate? hwalk, Access.reading_some]
    rfl
  | none =>
    simp only [pure_bind, Access.ofExcept_ite]
    rfl

/-- What follows the first transaction is looked at only behind a first transaction. -/
theorem coinbaseAt_eq (t : BlockTrial) :
    coinbaseAt t = Access.ofExcept (BlockRule.coinbase.check t) := by
  obtain ⟨⟨header, txs⟩, params, hasher⟩ := t
  unfold coinbaseAt
  simp only [BlockRule.coinbase, Block.coinbase?]
  cases txs with
  | nil => rfl
  | cons first rest =>
    have hslice : (Access.slice (first :: rest) 1 : Access BlockFault (List Tx)) = pure rest := by
      rw [Access.slice, if_pos (by simp)]
      rfl
    have hany : rest.anyM (Tx.isCoinbaseAt : Tx → Access BlockFault Bool)
        = pure (rest.any Tx.isCoinbase) := by
      rw [funext Tx.isCoinbaseAt_eq, List.anyM_pure]
    simp only [List.head?_cons, Tx.isCoinbaseAt_eq, pure_bind, hslice, hany, Option.filter_some,
      List.tail_cons]
    by_cases hfirst : first.isCoinbase = true
    · by_cases hmany : rest.any Tx.isCoinbase = true <;> simp only [hfirst, hmany, if_true] <;> rfl
    · simp only [hfirst]
      rfl

theorem transactionsAt_eq (t : BlockTrial) :
    transactionsAt t = Access.ofExcept (BlockRule.transactions.check t) := by
  have hone : (fun tx : Tx => (tx.checkAt t.params).adapt (BlockFault.tx tx.txid))
      = fun tx => Access.ofExcept (BlockRule.checkTx t.params tx) := by
    funext tx
    rw [Tx.checkAt_eq]
    unfold BlockRule.checkTx
    cases tx.check t.params <;> rfl
  rw [transactionsAt, hone]
  exact Access.forM_ofExcept _ _

/-- **No rule reads out of range.** -/
theorem checkAt_eq (t : BlockTrial) (r : StandardRule) :
    r.checkAt t = Access.ofExcept (r.rule.check t) := by
  cases r with
  | merkleRoot => exact merkleRootAt_eq t
  | size => rfl
  | coinbase => exact coinbaseAt_eq t
  | transactions => exact transactionsAt_eq t

/-- **The rules read nothing out of range in whatever order they come**, left out or repeated as
they may be. -/
theorem checkAt_any_order (t : BlockTrial) (rules : List StandardRule) :
    (rules.forM fun r => r.checkAt t) = Access.ofExcept (t.check (rules.map rule)) := by
  rw [funext (checkAt_eq t), Access.forM_ofExcept]
  simp only [BlockTrial.check, List.forM_eq_forM, List.forM_map]

end StandardRule

end HeaderPeer
