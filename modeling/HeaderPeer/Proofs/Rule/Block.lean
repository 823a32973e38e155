/-
  HeaderPeer.Proofs.Rule.Block — which blocks the usual rules accept, and what they say of the rest.

  The rules run in order and the first that fails is reported, so the report says two things: what
  is wrong, and that all that is looked at earlier is right.  `Acceptable` says what a block must be
  like without running the rules, and `FirstFault` what is the first thing wrong with it.

  A transaction with several inputs is never taken for a coinbase, not even if one of them spends
  the null outpoint.  The check of the transaction by itself refuses it then, so that in an accepted
  block the null outpoint is spent once, where new coins are made.

  Main statements:
    * `check_standard_eq_ok_iff` — what the usual rules accept.
    * `check_standard_eq_error_iff` — what they report otherwise.
    * `Acceptable.nulls` — an acceptable block spends the null outpoint once.
    * `check_standard_exact` — all of this of every block, and nothing is read out of range.
-/
import HeaderPeer.Proofs.Rule.Access
import HeaderPeer.Proofs.Rule.Tx

namespace HeaderPeer

namespace BlockTrial

/-! ## §1. What is asked of a block -/

/-- The header commits to the transactions, and the walk sees no repeated tail. -/
structure Committed (t : BlockTrial) : Prop where
  unrepeated : Merkle.duplicate? t.block.txids = none
  root : Merkle.root t.hasher t.block.txids = t.block.header.merkleRoot

/-- There are transactions, and neither their number nor their size weighs more than a block may.
A weight is a 64-bit number and stays at the largest one. -/
structure Sized (t : BlockTrial) : Prop where
  some : t.block.txs ≠ []
  count : min (t.block.txs.length * t.params.witnessScale.toNat) (2 ^ 64 - 1)
    ≤ t.params.maxBlockWeight.toNat
  bytes : min (t.block.strippedSize * t.params.witnessScale.toNat) (2 ^ 64 - 1)
    ≤ t.params.maxBlockWeight.toNat

/-- The first transaction is a coinbase. -/
def Opened (t : BlockTrial) : Prop :=
  ∃ coinbase, t.block.txs.head? = some coinbase ∧ coinbase.isCoinbase = true

/-- The first transaction is a coinbase, and no other is. -/
structure Minted (t : BlockTrial) : Prop where
  first : t.Opened
  only : ∀ tx ∈ t.block.txs.tail, tx.isCoinbase = false

/-- What a block must be like. -/
structure Acceptable (t : BlockTrial) : Prop where
  committed : t.Committed
  sized : t.Sized
  minted : t.Minted
  checked : ∀ tx ∈ t.block.txs, tx.check t.params = .ok ()

/-- The first thing wrong with a block, in the order in which the usual rules look at it. -/
inductive FirstFault (t : BlockTrial) : BlockFault → Prop
  | duplicateTx {position : Nat} {txid : Word256}
      (hwalk : Merkle.duplicate? t.block.txids = some position)
      (htxid : t.block.txids[position]? = some txid) :
      FirstFault t (.duplicateTx txid position)
  | merkleRoot (hwalk : Merkle.duplicate? t.block.txids = none)
      (hroot : Merkle.root t.hasher t.block.txids ≠ t.block.header.merkleRoot) :
      FirstFault t
        (.merkleRoot t.block.header.merkleRoot (Merkle.root t.hasher t.block.txids))
  | length (hcommitted : t.Committed) (hsized : ¬ t.Sized) :
      FirstFault t (.length t.block.txs.length t.block.strippedSize)
  | noCoinbase (hcommitted : t.Committed) (hsized : t.Sized) (hopened : ¬ t.Opened) :
      FirstFault t .noCoinbase
  | manyCoinbases (hcommitted : t.Committed) (hsized : t.Sized) (hopened : t.Opened)
      (hmany : ∃ tx ∈ t.block.txs.tail, tx.isCoinbase = true) :
      FirstFault t .manyCoinbases
  | tx (hcommitted : t.Committed) (hsized : t.Sized) (hminted : t.Minted)
      {front rest : List Tx} {tx : Tx} {reason : TxFault}
      (htxs : t.block.txs = front ++ tx :: rest)
      (hfront : ∀ earlier ∈ front, earlier.check t.params = .ok ())
      (hreason : tx.check t.params = .error reason) :
      FirstFault t (.tx tx.txid reason)

end BlockTrial

/-! ## §2. Rule by rule -/

namespace BlockRule

variable {t : BlockTrial} {fault : BlockFault}

theorem merkleRoot_check_of_some {position : Nat}
    (hwalk : Merkle.duplicate? t.block.txids = some position) :
    merkleRoot.check t = .error (.duplicateTx (t.block.txids.getD position 0) position) := by
  simp only [merkleRoot, hwalk]

theorem merkleRoot_check_of_none (hwalk : Merkle.duplicate? t.block.txids = none) :
    merkleRoot.check t =
      if Merkle.root t.hasher t.block.txids = t.block.header.merkleRoot then .ok ()
      else .error
        (.merkleRoot t.block.header.merkleRoot (Merkle.root t.hasher t.block.txids)) := by
  simp only [merkleRoot, hwalk]

theorem merkleRoot_eq_ok_iff : merkleRoot.check t = .ok () ↔ t.Committed := by
  cases hwalk : Merkle.duplicate? t.block.txids with
  | some position =>
    rw [merkleRoot_check_of_some hwalk]
    constructor
    · intro h
      cases h
    · intro h
      cases hwalk.symm.trans h.unrepeated
  | none =>
    rw [merkleRoot_check_of_none hwalk, Except.require_eq_ok_iff]
    exact ⟨fun hroot => ⟨hwalk, hroot⟩, fun h => h.root⟩

theorem merkleRoot_eq_error_iff :
    merkleRoot.check t = .error fault ↔
      (∃ position txid, Merkle.duplicate? t.block.txids = some position
        ∧ t.block.txids[position]? = some txid ∧ fault = .duplicateTx txid position)
      ∨ (Merkle.duplicate? t.block.txids = none
        ∧ Merkle.root t.hasher t.block.txids ≠ t.block.header.merkleRoot
        ∧ fault = .merkleRoot t.block.header.merkleRoot (Merkle.root t.hasher t.block.txids)) := by
  cases hwalk : Merkle.duplicate? t.block.txids with
  | some position =>
    have htxid := Merkle.getElem?_of_duplicate? hwalk
    rw [merkleRoot_check_of_some hwalk, Except.error_eq_error_iff]
    constructor
    · intro hfault
      exact .inl ⟨position, _, rfl, htxid, hfault⟩
    · rintro (⟨position', txid, hsame, htxid', rfl⟩ | ⟨h, -⟩)
      · cases hsame
        cases htxid.symm.trans htxid'
        rfl
      · cases h
  | none =>
    rw [merkleRoot_check_of_none hwalk, Except.require_eq_error_iff]
    simp

/-- The three ways of a block to have the wrong size are one fault. -/
theorem size_check_eq (t : BlockTrial) :
    size.check t = if t.block.txs = [] ∨ t.params.overweight t.block.txs.length
        ∨ t.params.overweight t.block.strippedSize then
      .error (.length t.block.txs.length t.block.strippedSize) else .ok () := by
  simp only [size, List.length_eq_zero_iff]

theorem sized_iff :
    t.Sized ↔ ¬ (t.block.txs = [] ∨ t.params.overweight t.block.txs.length
      ∨ t.params.overweight t.block.strippedSize) := by
  rw [not_or, not_or, Bool.not_eq_true, Bool.not_eq_true, Params.overweight_eq_false_iff,
    Params.overweight_eq_false_iff]
  exact ⟨fun h => ⟨h.some, h.count, h.bytes⟩, fun h => ⟨h.1, h.2.1, h.2.2⟩⟩

theorem size_eq_ok_iff : size.check t = .ok () ↔ t.Sized := by
  rw [size_check_eq, Except.refuse_eq_ok_iff, ← sized_iff, and_iff_left rfl]

theorem size_eq_error_iff :
    size.check t = .error fault ↔
      ¬ t.Sized ∧ fault = .length t.block.txs.length t.block.strippedSize := by
  rw [size_check_eq, Except.refuse_eq_error_iff, sized_iff, not_not]
  simp

theorem coinbase_check_eq (t : BlockTrial) :
    coinbase.check t =
      if t.block.coinbase?.isNone then .error .noCoinbase
      else if t.block.txs.tail.any Tx.isCoinbase then .error .manyCoinbases else .ok () := rfl

theorem opened_iff : t.Opened ↔ ¬ t.block.coinbase?.isNone = true := by
  unfold BlockTrial.Opened Block.coinbase?
  cases t.block.txs.head? with
  | none => simp
  | some first => cases hfirst : first.isCoinbase <;> simp [hfirst]

theorem coinbase_eq_ok_iff : coinbase.check t = .ok () ↔ t.Minted := by
  rw [coinbase_check_eq, Except.refuse_eq_ok_iff, Except.refuse_eq_ok_iff, ← opened_iff,
    List.any_eq_true, and_iff_left rfl]
  constructor
  · rintro ⟨hopened, honly⟩
    refine ⟨hopened, ?_⟩
    intro tx htx
    exact Bool.eq_false_iff.2 fun hcoinbase => honly ⟨tx, htx, hcoinbase⟩
  · rintro ⟨hopened, honly⟩
    refine ⟨hopened, ?_⟩
    rintro ⟨tx, htx, hcoinbase⟩
    rw [honly tx htx] at hcoinbase
    cases hcoinbase

theorem coinbase_eq_error_iff :
    coinbase.check t = .error fault ↔
      (¬ t.Opened ∧ fault = .noCoinbase)
      ∨ (t.Opened ∧ (∃ tx ∈ t.block.txs.tail, tx.isCoinbase = true) ∧ fault = .manyCoinbases) := by
  rw [opened_iff, not_not, coinbase_check_eq, Except.refuse_eq_error_iff,
    Except.refuse_eq_error_iff, List.any_eq_true]
  simp

theorem checkTx_eq_ok_iff {p : Params} {tx : Tx} :
    checkTx p tx = .ok () ↔ tx.check p = .ok () := by
  unfold checkTx
  cases tx.check p with
  | ok u => exact ⟨fun _ => rfl, fun _ => rfl⟩
  | error reason => exact ⟨fun h => (nomatch h), fun h => (nomatch h)⟩

theorem checkTx_eq_error_iff {p : Params} {tx : Tx} :
    checkTx p tx = .error fault ↔
      ∃ reason, tx.check p = .error reason ∧ fault = .tx tx.txid reason := by
  unfold checkTx
  cases tx.check p with
  | ok u =>
    constructor
    · exact fun h => nomatch h
    · rintro ⟨reason, h, -⟩
      cases h
  | error reason =>
    constructor
    · intro h
      cases h
      exact ⟨reason, rfl, rfl⟩
    · rintro ⟨reason', h, rfl⟩
      cases h
      rfl

theorem transactions_eq_ok_iff :
    transactions.check t = .ok () ↔ ∀ tx ∈ t.block.txs, tx.check t.params = .ok () := by
  simp only [transactions, Except.forM_eq_ok_iff, checkTx_eq_ok_iff]

theorem transactions_eq_error_iff :
    transactions.check t = .error fault ↔
      ∃ front tx rest reason, t.block.txs = front ++ tx :: rest
        ∧ (∀ earlier ∈ front, earlier.check t.params = .ok ())
        ∧ tx.check t.params = .error reason ∧ fault = .tx tx.txid reason := by
  simp only [transactions, Except.forM_eq_error_iff, checkTx_eq_ok_iff, checkTx_eq_error_iff]
  constructor
  · rintro ⟨front, tx, rest, htxs, hfront, reason, hreason, hfault⟩
    exact ⟨front, tx, rest, reason, htxs, hfront, hreason, hfault⟩
  · rintro ⟨front, tx, rest, reason, htxs, hfront, hreason, hfault⟩
    exact ⟨front, tx, rest, htxs, hfront, reason, hreason, hfault⟩

end BlockRule

/-! ## §3. All rules -/

namespace BlockTrial

variable {t : BlockTrial} {rule : BlockRule} {rest : List BlockRule} {fault : BlockFault}

theorem check_cons_eq_ok_iff :
    t.check (rule :: rest) = .ok () ↔ rule.check t = .ok () ∧ t.check rest = .ok () :=
  Except.seq_eq_ok_iff

theorem check_cons_eq_error_iff :
    t.check (rule :: rest) = .error fault ↔
      rule.check t = .error fault ∨ rule.check t = .ok () ∧ t.check rest = .error fault :=
  Except.seq_eq_error_iff

open BlockRule in
/-- **The usual rules accept what is acceptable, and nothing else.** -/
theorem check_standard_eq_ok_iff : t.check standard = .ok () ↔ t.Acceptable := by
  unfold standard
  rw [check_cons_eq_ok_iff, check_cons_eq_ok_iff, check_cons_eq_ok_iff, check_cons_eq_ok_iff,
    merkleRoot_eq_ok_iff, size_eq_ok_iff, coinbase_eq_ok_iff, transactions_eq_ok_iff]
  constructor
  · rintro ⟨hcommitted, hsized, hminted, hchecked, -⟩
    exact ⟨hcommitted, hsized, hminted, hchecked⟩
  · rintro ⟨hcommitted, hsized, hminted, hchecked⟩
    exact ⟨hcommitted, hsized, hminted, hchecked, rfl⟩

open BlockRule in
/-- **The usual rules report the first fault, and nothing else.** -/
theorem check_standard_eq_error_iff : t.check standard = .error fault ↔ t.FirstFault fault := by
  unfold standard
  rw [check_cons_eq_error_iff, check_cons_eq_error_iff, check_cons_eq_error_iff,
    check_cons_eq_error_iff, merkleRoot_eq_ok_iff, size_eq_ok_iff, coinbase_eq_ok_iff,
    merkleRoot_eq_error_iff, size_eq_error_iff, coinbase_eq_error_iff, transactions_eq_error_iff]
  -- one alternative for each way to fail, and a last one for rules that do not exist
  constructor
  · rintro ((⟨position, txid, hwalk, htxid, rfl⟩ | ⟨hwalk, hroot, rfl⟩)
      | ⟨hcommitted, ⟨hsized, rfl⟩ | ⟨hsized, hrest⟩⟩)
    · exact .duplicateTx hwalk htxid
    · exact .merkleRoot hwalk hroot
    · exact .length hcommitted hsized
    · rcases hrest with (⟨hopened, rfl⟩ | ⟨hopened, hmany, rfl⟩) | ⟨hminted, htxs | ⟨-, hnil⟩⟩
      · exact .noCoinbase hcommitted hsized hopened
      · exact .manyCoinbases hcommitted hsized hopened hmany
      · obtain ⟨front, tx, rest, reason, htxs, hfront, hreason, rfl⟩ := htxs
        exact .tx hcommitted hsized hminted htxs hfront hreason
      · cases hnil
  · intro h
    cases h with
    | duplicateTx hwalk htxid => exact .inl (.inl ⟨_, _, hwalk, htxid, rfl⟩)
    | merkleRoot hwalk hroot => exact .inl (.inr ⟨hwalk, hroot, rfl⟩)
    | length hcommitted hsized => exact .inr ⟨hcommitted, .inl ⟨hsized, rfl⟩⟩
    | noCoinbase hcommitted hsized hopened =>
      exact .inr ⟨hcommitted, .inr ⟨hsized, .inl (.inl ⟨hopened, rfl⟩)⟩⟩
    | manyCoinbases hcommitted hsized hopened hmany =>
      exact .inr ⟨hcommitted, .inr ⟨hsized, .inl (.inr ⟨hopened, hmany, rfl⟩)⟩⟩
    | tx hcommitted hsized hminted htxs hfront hreason =>
      exact .inr ⟨hcommitted, .inr ⟨hsized, .inr
        ⟨hminted, .inl ⟨_, _, _, _, htxs, hfront, hreason, rfl⟩⟩⟩⟩

/-! ## §4. Accepted blocks -/

/-- The transactions of an acceptable block: a coinbase and others. -/
theorem Acceptable.txs_eq (h : t.Acceptable) :
    ∃ coinbase rest, t.block.txs = coinbase :: rest ∧ coinbase.isCoinbase = true
      ∧ ∀ tx ∈ rest, tx.isCoinbase = false := by
  obtain ⟨coinbase, hhead, hcoinbase⟩ := h.minted.first
  obtain ⟨rest, htxs⟩ := List.head?_eq_some_iff.1 hhead
  refine ⟨coinbase, rest, htxs, hcoinbase, ?_⟩
  have honly := h.minted.only
  rwa [htxs, List.tail_cons] at honly

/-- **An acceptable block spends the null outpoint once.**  The first transaction does; another one
that did would be a coinbase, or would not pass by itself. -/
theorem Acceptable.nulls (h : t.Acceptable) :
    (t.block.txs.flatMap Tx.inputs).countP (fun input => input.previous.isNull) = 1 := by
  obtain ⟨coinbase, rest, htxs, hcoinbase, honly⟩ := h.txs_eq
  have hnulls : ∀ tx ∈ t.block.txs, tx.nulls = if tx.isCoinbase then 1 else 0 := fun tx htx =>
    Tx.nulls_of_checkNulls (Tx.check_eq_ok_iff.1 (h.checked tx htx)).2.2.2.2.2
  have hfirst : coinbase.nulls = 1 := by
    rw [hnulls coinbase (htxs ▸ List.mem_cons_self), hcoinbase]
    rfl
  have hrest : (rest.flatMap Tx.inputs).countP (fun input => input.previous.isNull) = 0 := by
    rw [List.countP_eq_zero]
    intro input hinput
    obtain ⟨tx, htx, hmem⟩ := List.mem_flatMap.1 hinput
    have hnone : tx.nulls = 0 := by
      rw [hnulls tx (htxs ▸ List.mem_cons_of_mem _ htx), honly tx htx]
      rfl
    exact List.countP_eq_zero.1 hnone input hmem
  rw [htxs, List.flatMap_cons, List.countP_append, hrest]
  exact hfirst

/-- No transaction of an acceptable block spends an output twice. -/
theorem Acceptable.nodup (h : t.Acceptable) :
    ∀ tx ∈ t.block.txs, (tx.inputs.map TxInput.previous).Nodup := fun tx htx =>
  (Tx.check_eq_ok_iff.1 (h.checked tx htx)).2.2.2.2.1

/-- **What the usual rules make of every block.**  It passes exactly if it is acceptable, and
otherwise its first fault is reported; the fault of a transaction keeps the transaction's reason and
counts as a broken rule of the network.  An accepted block spends the null outpoint once, in the
only input of its first transaction, and no transaction of it spends an output twice.  Whatever the
block and whatever the order of the rules, nothing is read out of range. -/
theorem check_standard_exact (t : BlockTrial) :
    (t.check BlockRule.standard = .ok () ↔ t.Acceptable)
      ∧ (∀ fault, t.check BlockRule.standard = .error fault ↔ t.FirstFault fault)
      ∧ (∀ txid (reason : TxFault), (BlockFault.tx txid reason).rejection.category = .consensus
          ∧ (BlockFault.tx txid reason).rejection.reason = reason.rejection.reason)
      ∧ (t.check BlockRule.standard = .ok () →
          (t.block.txs.flatMap Tx.inputs).countP (fun input => input.previous.isNull) = 1
          ∧ (∃ coinbase rest input, t.block.txs = coinbase :: rest
              ∧ coinbase.inputs = [input] ∧ input.previous = .null)
          ∧ ∀ tx ∈ t.block.txs, (tx.inputs.map TxInput.previous).Nodup)
      ∧ ∀ rules : List StandardRule,
          (rules.forM fun r => r.checkAt t)
            = Access.ofExcept (t.check (rules.map StandardRule.rule)) := by
  refine ⟨check_standard_eq_ok_iff, fun _ => check_standard_eq_error_iff, fun _ _ => ⟨rfl, rfl⟩,
    fun hok => ?_, StandardRule.checkAt_any_order t⟩
  have h := check_standard_eq_ok_iff.1 hok
  obtain ⟨coinbase, rest, htxs, hcoinbase, -⟩ := h.txs_eq
  obtain ⟨input, hinputs, hnull⟩ := Tx.isCoinbase_iff.1 hcoinbase
  exact ⟨h.nulls, ⟨coinbase, rest, input, htxs, hinputs, hnull⟩, h.nodup⟩

/-- A block of one transaction, a coinbase; the root is then the transaction's id. -/
def loneCoinbase : BlockTrial where
  block :=
    { header :=
        { version := 1, previous := 0, merkleRoot := 7, time := 0, bits := 0x207fffff, nonce := 0
          txCount := 0, hash := 0 }
      txs := [
        { version := 1
          inputs := [⟨.null, [0x03, 0x01, 0x00], 0xffffffff, .none⟩]
          outputs := [⟨5000000000, [0x51]⟩]
          lockTime := 0, txid := 7, wtxid := 7 }] }
  params := .regtest
  hasher := .doubleSha256

/-- It is accepted, and spends the null outpoint once. -/
theorem loneCoinbase_accepted :
    loneCoinbase.check BlockRule.standard = .ok ()
      ∧ (loneCoinbase.block.txs.flatMap Tx.inputs).countP
          (fun input => input.previous.isNull) = 1 := by
  have hacceptable : loneCoinbase.Acceptable := by
    refine ⟨⟨rfl, ?_⟩, ⟨by decide, by decide +kernel, by decide +kernel⟩,
      ⟨⟨_, rfl, by decide⟩, by decide⟩, ?_⟩
    · show Merkle.root loneCoinbase.hasher [7] = 7
      rw [Merkle.root]
    · intro tx htx
      cases List.mem_singleton.1 htx
      refine Tx.check_eq_ok_iff.2 ⟨by decide, by decide, by decide +kernel, ?_, by decide, rfl⟩
      decide +kernel
  have hok := (check_standard_exact loneCoinbase).1.2 hacceptable
  exact ⟨hok, ((check_standard_exact loneCoinbase).2.2.2.1 hok).1⟩

end BlockTrial

end HeaderPeer
