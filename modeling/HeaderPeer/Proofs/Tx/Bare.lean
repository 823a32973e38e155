/-
  HeaderPeer.Proofs.Tx.Bare — what a transaction is without its witnesses.

  Anyone can take the witnesses out of a transaction on its way, or put others in.  The id must not
  change by that, so the form that it is the digest of leaves them out.  Here everything that is read
  of a transaction for its id, its size or its validity is shown to read the same of the transaction
  without witnesses (`bare`).  Two transactions that differ in their witnesses only are the same
  without them, so nothing that is read that way can tell them apart.

  Main statements:
    * `bare_eq_iff` — the same without witnesses is the same but for witnesses.
    * `write_bare` — the form without witnesses.
    * `check_bare` — the checks.
-/
import HeaderPeer.Proofs.Tx.RoundTrip
import HeaderPeer.Proofs.Wire.Put
import HeaderPeer.Rule.Tx
import Mathlib.Data.List.Forall2

namespace HeaderPeer

open Wire

/-! ## §1. The same but for witnesses -/

/-- Lists come to the same under a function exactly if their entries do, pair by pair. -/
theorem map_eq_map_iff_forall₂ {α β : Type} {f : α → β} {xs ys : List α} :
    xs.map f = ys.map f ↔ List.Forall₂ (fun x y => f x = f y) xs ys := by
  rw [← List.forall₂_eq_eq_eq, List.forall₂_map_left_iff, List.forall₂_map_right_iff]

/-- Two inputs that spend the same output by the same script. -/
structure TxInput.SameButWitness (i j : TxInput) : Prop where
  previous : i.previous = j.previous
  script : i.script = j.script
  sequence : i.sequence = j.sequence

namespace Tx

/-- Two transactions that differ at most in their witnesses and in the ids that cover them. -/
structure SameButWitness (tx tx' : Tx) : Prop where
  version : tx.version = tx'.version
  inputs : List.Forall₂ TxInput.SameButWitness tx.inputs tx'.inputs
  outputs : tx.outputs = tx'.outputs
  lockTime : tx.lockTime = tx'.lockTime
  txid : tx.txid = tx'.txid

/-- The transaction without its witnesses and the id that covers them. -/
def bare (tx : Tx) : Tx := { tx with inputs := bareInputs tx.inputs, wtxid := 0 }

theorem bareInputs_eq_iff {inputs inputs' : List TxInput} :
    bareInputs inputs = bareInputs inputs'
      ↔ List.Forall₂ TxInput.SameButWitness inputs inputs' := by
  have hone : ∀ i j : TxInput, ({ i with witness := .none } : TxInput) = { j with witness := .none }
      ↔ i.SameButWitness j := by
    intro i j
    constructor
    · intro h
      obtain ⟨hprevious, hscript, hsequence, -⟩ := TxInput.mk.inj h
      exact ⟨hprevious, hscript, hsequence⟩
    · rintro ⟨hprevious, hscript, hsequence⟩
      rw [hprevious, hscript, hsequence]
  unfold bareInputs
  rw [map_eq_map_iff_forall₂]
  simp only [hone]

/-- **Transactions are the same without witnesses exactly if they differ in nothing else.** -/
theorem bare_eq_iff {tx tx' : Tx} : tx.bare = tx'.bare ↔ tx.SameButWitness tx' := by
  unfold bare
  constructor
  · intro h
    obtain ⟨hversion, hinputs, houtputs, hlockTime, htxid, -⟩ := Tx.mk.inj h
    exact ⟨hversion, bareInputs_eq_iff.1 hinputs, houtputs, hlockTime, htxid⟩
  · intro h
    rw [h.version, bareInputs_eq_iff.2 h.inputs, h.outputs, h.lockTime, h.txid]

/-! ## §2. On the wire -/

theorem write_bareInputs (l : Layout) (inputs : List TxInput) :
    (Codec.write l (bareInputs inputs) : Put) = Codec.write l inputs := by
  -- an input is written without its witness
  have hinput : ∀ i : TxInput, (Codec.write l { i with witness := .none } : Put) = Codec.write l i :=
    fun _ => rfl
  exact Put.list_map (Codec.write l) hinput inputs

/-- **The form without witnesses is the form of the transaction without its witnesses.** -/
theorem write_bare {l : Layout} (hl : l.witness = false) (tx : Tx) :
    Codec.write l tx.bare = Codec.write l tx := by
  show Tx.write l tx.bare = Tx.write l tx
  unfold Tx.write
  rw [hl, Bool.false_and, Bool.false_and, if_neg Bool.false_ne_true, if_neg Bool.false_ne_true]
  show _ ++ Codec.write l (bareInputs tx.inputs) ++ _ ++ _ = _
  rw [write_bareInputs]
  rfl

theorem encode_bare (tx : Tx) : encode .stripped tx.bare = encode .stripped tx := by
  rw [encode, encode, write_bare rfl]

theorem strippedSize_bare (tx : Tx) : tx.bare.strippedSize = tx.strippedSize := by
  show Wire.size .stripped tx.bare = Wire.size .stripped tx
  rw [Wire.size, Wire.size, write_bare rfl]

/-- Computing the ids anew does not bring the witnesses in. -/
theorem bare_rehash (h : Hasher) (tx : Tx) :
    (tx.rehash h).bare = { tx.bare with txid := (tx.bare.rehash h).txid } := by
  show _ = { tx.bare with txid := h.digest (encode .stripped tx.bare) }
  rw [encode_bare]
  rfl

/-- Transactions that differ in their witnesses only get the same id. -/
theorem SameButWitness.rehash {tx tx' : Tx} (h : tx.SameButWitness tx') (hasher : Hasher) :
    (tx.rehash hasher).SameButWitness (tx'.rehash hasher) := by
  rw [← bare_eq_iff, bare_rehash, bare_rehash, bare_eq_iff.2 h]

/-! ## §3. Checks -/

theorem isCoinbase_bare (tx : Tx) : tx.bare.isCoinbase = tx.isCoinbase := by
  unfold isCoinbase bare bareInputs
  match tx.inputs with
  | [] => rfl
  | [_] => rfl
  | _ :: _ :: _ => rfl

theorem totalOutput?_bare (tx : Tx) : tx.bare.totalOutput? = tx.totalOutput? := rfl

theorem checkSpends_bareInputs (inputs : List TxInput) :
    checkSpends (bareInputs inputs) = checkSpends inputs := by
  have hnames : (bareInputs inputs).map TxInput.previous = inputs.map TxInput.previous := by
    rw [bareInputs, List.map_map]
    rfl
  rw [checkSpends, checkSpends, hnames]

theorem checkNulls_bareInputs (inputs : List TxInput) :
    checkNulls (bareInputs inputs) = checkNulls inputs := by
  match inputs with
  | [] => rfl
  | [_] => rfl
  | first :: second :: rest =>
    have hnulls : (bareInputs (first :: second :: rest)).any (fun input => input.previous.isNull)
        = (first :: second :: rest).any fun input => input.previous.isNull := by
      rw [bareInputs, List.any_map]
      rfl
    show (if (bareInputs (first :: second :: rest)).any _ then _ else _) = _
    rw [hnulls]
    rfl

/-- **The checks of a transaction do not look at its witnesses.** -/
theorem check_bare (p : Params) (tx : Tx) : tx.bare.check p = tx.check p := by
  have hempty : tx.bare.inputs.isEmpty = tx.inputs.isEmpty := by
    show (bareInputs tx.inputs).isEmpty = _
    rw [bareInputs, List.isEmpty_map]
  unfold check
  rw [hempty, strippedSize_bare, show tx.bare.inputs = bareInputs tx.inputs from rfl,
    checkSpends_bareInputs, checkNulls_bareInputs]
  rfl

end Tx

end HeaderPeer
