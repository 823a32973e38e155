/-
  HeaderPeer.Proofs.Rule.Checks — what checks say that run one after the other.

  A check passes or names what is wrong.  Rules are put together from guards, from two checks in a
  row and from one check for every entry of a list; for each of them one statement says when the
  whole passes, and one what it reports otherwise.

  Main statements:
    * `seq_eq_ok_iff`, `seq_eq_error_iff` — two checks in a row.
    * `forM_eq_ok_iff`, `forM_eq_error_iff` — a check for every entry of a list.
-/
import Mathlib.Logic.Basic

namespace HeaderPeer.Except

variable {ε α : Type}

/-! ## §1. Guards -/

section

variable {p : Prop} [Decidable p] {e e' : ε} {rest : Except ε Unit}

theorem error_eq_error_iff : (.error e : Except ε α) = .error e' ↔ e' = e :=
  ⟨fun h => (Except.error.inj h).symm, fun h => h ▸ rfl⟩

theorem refuse_eq_ok_iff : (if p then .error e else rest) = .ok () ↔ ¬ p ∧ rest = .ok () := by
  by_cases hp : p
  · simp [hp]
  · simp [hp]

theorem refuse_eq_error_iff :
    (if p then .error e else rest) = .error e' ↔ p ∧ e' = e ∨ ¬ p ∧ rest = .error e' := by
  by_cases hp : p
  · rw [if_pos hp, error_eq_error_iff]
    simp [hp]
  · simp [hp]

theorem require_eq_ok_iff : (if p then .ok () else .error e : Except ε Unit) = .ok () ↔ p := by
  by_cases hp : p
  · simp [hp]
  · simp [hp]

theorem require_eq_error_iff :
    (if p then .ok () else .error e : Except ε Unit) = .error e' ↔ ¬ p ∧ e' = e := by
  by_cases hp : p
  · simp [hp]
  · rw [if_neg hp, error_eq_error_iff, and_iff_right hp]

end

/-! ## §2. Two checks -/

/-- Two checks pass one after the other if both pass. -/
theorem seq_eq_ok_iff {first rest : Except ε Unit} :
    (do first; rest) = .ok () ↔ first = .ok () ∧ rest = .ok () := by
  cases first with
  | ok u => exact ⟨fun h => ⟨rfl, h⟩, fun h => h.2⟩
  | error e => exact ⟨fun h => (nomatch h), fun h => (nomatch h.1)⟩

/-- The first of two checks decides, if it fails; else the second one does. -/
theorem seq_eq_error_iff {first rest : Except ε Unit} {e : ε} :
    (do first; rest) = .error e ↔ first = .error e ∨ first = .ok () ∧ rest = .error e := by
  cases first with
  | ok u => exact ⟨fun h => .inr ⟨rfl, h⟩, fun h => h.elim (fun h => (nomatch h)) And.right⟩
  | error e' =>
    constructor
    · exact fun h => .inl h
    · rintro (h | ⟨h, -⟩)
      · exact h
      · cases h

/-! ## §3. Lists -/

/-- Checking every entry of a list passes if each of them passes. -/
theorem forM_eq_ok_iff {f : α → Except ε Unit} {xs : List α} :
    xs.forM f = .ok () ↔ ∀ x ∈ xs, f x = .ok () := by
  induction xs with
  | nil => exact ⟨fun _ _ h => (nomatch h), fun _ => rfl⟩
  | cons x rest ih =>
    show (do f x; rest.forM f) = .ok () ↔ _
    rw [seq_eq_ok_iff, ih, List.forall_mem_cons]

/-- The fault is the one of the earliest entry that fails. -/
theorem forM_eq_error_iff {f : α → Except ε Unit} {xs : List α} {e : ε} :
    xs.forM f = .error e ↔
      ∃ front x rest, xs = front ++ x :: rest ∧ (∀ y ∈ front, f y = .ok ()) ∧ f x = .error e := by
  induction xs with
  | nil =>
    constructor
    · exact fun h => nomatch h
    · rintro ⟨front, x, rest, h, -⟩
      cases front <;> cases h
  | cons x rest ih =>
    show (do f x; rest.forM f) = .error e ↔ _
    rw [seq_eq_error_iff, ih]
    constructor
    · rintro (hx | ⟨hx, front, y, back, rfl, hfront, hy⟩)
      · exact ⟨[], x, rest, rfl, fun _ h => (nomatch h), hx⟩
      · exact ⟨x :: front, y, back, rfl, List.forall_mem_cons.2 ⟨hx, hfront⟩, hy⟩
    · rintro ⟨front, y, back, hsplit, hfront, hy⟩
      cases front with
      | nil =>
        cases hsplit
        exact .inl hy
      | cons z front =>
        cases hsplit
        obtain ⟨hz, hfront⟩ := List.forall_mem_cons.1 hfront
        exact .inr ⟨hz, front, y, back, rfl, hfront, hy⟩

end HeaderPeer.Except
