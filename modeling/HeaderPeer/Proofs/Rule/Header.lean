/-
  HeaderPeer.Proofs.Rule.Header — what the usual rules say of a header, all of them together.

  The rules hand on what they find out, and one of them can end the run.  Seen from outside there
  is one verdict, which depends on the header's parent, on the checkpoint at the height above it
  and, if there is none, on the header itself.

  Main statements: `check_standard`, `admits_of_pass`.
-/
import HeaderPeer.Rule.Header

namespace HeaderPeer

/-! ## §1. What a place in the tree asks for -/

/-- What must hold of a header for it to stand at a height, whatever the clock says. -/
structure Params.Admits (p : Params) (height : Nat) (header : Header) : Prop where
  checkpoint : ∀ hash, p.checkpoints.at? height = some hash → header.hash = hash
  version : p.checkpoints.at? height = none → p.minHeaderVersion ≤ header.version
  work : p.checkpoints.at? height = none →
    ∃ target, header.bits.target? = some target ∧ target ≤ p.powLimit ∧ header.hash ≤ target

/-! ## §2. The verdict -/

namespace HeaderTrial

section

variable {t : HeaderTrial} {rule : HeaderRule} {f f' : Findings} (rest : List HeaderRule)

theorem check_of_pass (h : rule.check t f = .pass f') (hopen : f'.settled = false) :
    t.check (rule :: rest) f = t.check rest f' := by
  rw [check, h]
  show (if f'.settled then _ else _) = _
  rw [hopen]
  rfl

theorem check_of_settled (h : rule.check t f = .pass f') (hsettled : f'.settled = true) :
    t.check (rule :: rest) f = .pass f' := by
  rw [check, h]
  show (if f'.settled then _ else _) = _
  rw [hsettled]
  rfl

theorem check_of_reject {fault : HeaderFault} (h : rule.check t f = .reject f' fault) :
    t.check (rule :: rest) f = .reject f' fault := by
  rw [check, h]

end

/-- Of a single rule it does not matter whether it settles anything. -/
theorem check_singleton (t : HeaderTrial) (rule : HeaderRule) (f : Findings) :
    t.check [rule] f = rule.check t f := by
  unfold check
  cases rule.check t f with
  | pass f' => exact ite_self _
  | reject f' fault => rfl
  | crash => rfl

/-- The verdict on a header that no checkpoint settles, with what is known of it by then. -/
def checkFields (t : HeaderTrial) (f : Findings) : Verdict :=
  if t.header.version < t.params.minHeaderVersion then .reject f (.oldVersion t.header.version)
  else if t.now + t.params.maxFutureTime < Int64.ofNat t.header.time.toNat then
    .reject f (.timeTooNew t.header.time (t.now + t.params.maxFutureTime))
  else
    match t.header.bits.target?.filter (· ≤ t.params.powLimit) with
    | none => .reject f (.bitsOutOfRange t.header.bits)
    | some target =>
      if target < t.header.hash then .reject f (.aboveTarget t.header.hash target) else .pass f

/-- The verdict on a header above `parent`. -/
def checkAbove (t : HeaderTrial) (parent : TreeNode) : Verdict :=
  match t.params.checkpoints.at? (parent.height + 1) with
  | none => t.checkFields ⟨some parent, false⟩
  | some expected =>
    if expected = t.header.hash then .pass ⟨some parent, true⟩
    else .reject ⟨some parent, false⟩ (.checkpoint (parent.height + 1) expected)

/-- The last three rules look at the header alone. -/
theorem check_fields (t : HeaderTrial) {f : Findings} (hopen : f.settled = false) :
    t.check [.version, .time, .proofOfWork] f = t.checkFields f := by
  unfold checkFields
  by_cases hversion : t.header.version < t.params.minHeaderVersion
  · rw [if_pos hversion]
    exact check_of_reject _ (if_pos hversion)
  · rw [if_neg hversion, check_of_pass _ (if_neg hversion) hopen]
    by_cases htime : t.now + t.params.maxFutureTime < Int64.ofNat t.header.time.toNat
    · rw [if_pos htime]
      exact check_of_reject _ (if_pos htime)
    · rw [if_neg htime, check_of_pass _ (if_neg htime) hopen]
      exact check_singleton t .proofOfWork f

/-- **The usual rules look for the parent, then for a checkpoint, and only then at the header.** -/
theorem check_standard (t : HeaderTrial) :
    t.check HeaderRule.standard .none =
      match t.tree.find? t.header.previous with
      | none => .reject .none (.unknownPrevious t.header.previous)
      | some parent => t.checkAbove parent := by
  unfold HeaderRule.standard
  cases hparent : t.tree.find? t.header.previous with
  | none =>
    refine check_of_reject _ ?_
    simp only [HeaderRule.previous, hparent]
  | some parent =>
    have hprevious : HeaderRule.previous.check t .none = .pass ⟨some parent, false⟩ := by
      simp only [HeaderRule.previous, hparent]
      rfl
    rw [check_of_pass _ hprevious rfl]
    show _ = t.checkAbove parent
    unfold checkAbove
    cases hcheckpoint : t.params.checkpoints.at? (parent.height + 1) with
    | none =>
      -- the checkpoint rule passes and leaves the findings as they are
      have hpass : HeaderRule.checkpoint.check t ⟨some parent, false⟩
          = .pass ⟨some parent, false⟩ := by
        simp only [HeaderRule.checkpoint, Findings.height?, Option.map_some, hcheckpoint]
      rw [check_of_pass _ hpass rfl]
      exact check_fields t rfl
    | some expected =>
      -- the checkpoint rule has the last word
      have hverdict : HeaderRule.checkpoint.check t ⟨some parent, false⟩
          = if expected = t.header.hash then .pass ⟨some parent, true⟩
            else .reject ⟨some parent, false⟩ (.checkpoint (parent.height + 1) expected) := by
        simp only [HeaderRule.checkpoint, Findings.height?, Option.map_some, hcheckpoint]
      show _ = if expected = t.header.hash then _ else _
      by_cases hhash : expected = t.header.hash
      · rw [if_pos hhash] at hverdict ⊢
        exact check_of_settled _ hverdict rfl
      · rw [if_neg hhash] at hverdict ⊢
        exact check_of_reject _ hverdict

/-! ## §3. Headers that pass -/

/-- The fields pass exactly if the version, the time and the work are right. -/
theorem checkFields_eq_pass_iff {t : HeaderTrial} {f f' : Findings} :
    t.checkFields f = .pass f' ↔
      f' = f ∧ t.params.minHeaderVersion ≤ t.header.version
        ∧ Int64.ofNat t.header.time.toNat ≤ t.now + t.params.maxFutureTime
        ∧ ∃ target, t.header.bits.target? = some target ∧ target ≤ t.params.powLimit
          ∧ t.header.hash ≤ target := by
  unfold checkFields
  constructor
  · intro h
    split at h
    · cases h
    · next hversion =>
      split at h
      · cases h
      · next htime =>
        split at h
        · cases h
        · next target htarget =>
          obtain ⟨hbits, hlimit⟩ := Option.filter_eq_some_iff.1 htarget
          split at h
          · cases h
          · next hhash =>
            cases h
            exact ⟨rfl, Int32.not_lt.1 hversion, Int64.not_lt.1 htime, target, hbits,
              of_decide_eq_true hlimit, BitVec.not_lt.1 hhash⟩
  · rintro ⟨rfl, hversion, htime, target, hbits, hlimit, hhash⟩
    have htarget : t.header.bits.target?.filter (· ≤ t.params.powLimit) = some target :=
      Option.filter_eq_some_iff.2 ⟨hbits, decide_eq_true hlimit⟩
    rw [if_neg (Int32.not_lt.2 hversion), if_neg (Int64.not_lt.2 htime), htarget]
    exact if_neg (BitVec.not_lt.2 hhash)

/-- **A header that passes the usual rules has a parent in the tree, and may stand above it.** -/
theorem admits_of_pass {t : HeaderTrial} {f : Findings}
    (h : t.check HeaderRule.standard .none = .pass f) :
    ∃ parent, t.tree.find? t.header.previous = some parent ∧
      t.params.Admits (parent.height + 1) t.header := by
  rw [check_standard] at h
  split at h
  · cases h
  · next parent hparent =>
    refine ⟨parent, hparent, ?_⟩
    unfold checkAbove at h
    split at h
    · next hcheckpoint =>
      -- no checkpoint, so the header passed on its own fields
      obtain ⟨-, hversion, -, hwork⟩ := checkFields_eq_pass_iff.1 h
      refine ⟨?_, fun _ => hversion, fun _ => hwork⟩
      intro hash hat
      rw [hcheckpoint] at hat
      cases hat
    · next expected hcheckpoint =>
      -- the header is as the checkpoint wants it, or it did not pass
      split at h
      · next hhash =>
        refine ⟨?_, ?_, ?_⟩
        · intro hash hat
          rw [hcheckpoint] at hat
          cases hat
          exact hhash.symm
        · intro hnone
          rw [hcheckpoint] at hnone
          cases hnone
        · intro hnone
          rw [hcheckpoint] at hnone
          cases hnone
      · cases h

end HeaderTrial

end HeaderPeer
