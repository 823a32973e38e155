/-
  HeaderPeer.Proofs.Wire.Yields — what must hold of whatever a reader gives.

  `Yields` speaks of all inputs at once: wherever the reader succeeds, its value has the property.
  It goes along with the way readers are put together, and a count bounds what it counts.

  Main statements: `yields_byteArray`, `yields_text`, `yields_list`.
-/
import HeaderPeer.Proofs.Wire.Get
import Mathlib.Algebra.Group.Nat.Defs

namespace HeaderPeer.Wire

/-- Every value that `g` reads has the property. -/
def Yields {α : Type} (g : Get α) (P : α → Prop) : Prop :=
  ∀ data a rest, g.run data = .ok a rest → P a

/-! ## §1. Putting readers together -/

section

variable {α β : Type} {g : Get α} {k : α → Get β} {P : α → Prop} {Q : β → Prop}

theorem yields_pure {a : α} (h : P a) : Yields (pure a) P := by
  intro data b rest hrun
  cases hrun
  exact h

theorem yields_throw (e : Error) (P : α → Prop) : Yields (throw e) P := by
  intro data a rest hrun
  cases hrun

theorem Yields.bind (hg : Yields g P) (hk : ∀ a, P a → Yields (k a) Q) : Yields (g >>= k) Q := by
  intro data b rest hrun
  obtain ⟨a, mid, ha, hb⟩ := ok_of_run_bind hrun
  exact hk a (hg data a mid ha) mid b rest hb

/-- Of what comes first nothing needs to be known. -/
theorem yields_bind (hk : ∀ a, Yields (k a) Q) : Yields (g >>= k) Q := by
  have hany : Yields g fun _ => True := fun _ _ _ _ => trivial
  exact hany.bind fun a _ => hk a

theorem yields_throw_bind (e : Error) (k : α → Get β) (Q : β → Prop) :
    Yields (throw e >>= k) Q :=
  (yields_throw e fun _ => False).bind fun _ h => h.elim

theorem yields_ite {c : Prop} [Decidable c] {g g' : Get α} (h : c → Yields g P)
    (h' : ¬ c → Yields g' P) : Yields (if c then g else g') P := by
  by_cases hc : c
  · rw [if_pos hc]
    exact h hc
  · rw [if_neg hc]
    exact h' hc

theorem Yields.map (hg : Yields g P) {f : α → β} (hf : ∀ a, P a → Q (f a)) :
    Yields (do return f (← g)) Q :=
  hg.bind fun a ha => yields_pure (hf a ha)

end

/-! ## §2. Counted things -/

theorem yields_bytes (n : Nat) : Yields (Get.bytes n) fun bs => bs.length = n := by
  intro data bs rest hrun
  exact (ok_of_run_bytes hrun).2

theorem yields_count : Yields Get.count fun n => n < 2 ^ 64 := by
  refine yields_bind fun v => yields_pure ?_
  exact v.toNat_lt

theorem yields_byteArray : Yields Get.byteArray fun bs => bs.length < 2 ^ 64 := by
  have hopt : Yields Get.byteArray? fun o => (o.getD []).length < 2 ^ 64 := by
    refine yields_count.bind fun n hn => yields_ite (fun _ => yields_pure (by decide)) fun _ => ?_
    refine (yields_bytes n).map fun bs hbs => ?_
    show bs.length < 2 ^ 64
    omega
  exact hopt.map fun _ h => h

theorem yields_text : Yields Get.text fun s => (Bytes.ofText s).length < 2 ^ 64 := by
  refine yields_count.bind fun n hn => (yields_bytes n).bind fun bs hbs => ?_
  cases htext : bs.toText? with
  | none => exact yields_throw _ _
  | some s =>
    -- a text that was read is written with the bytes it was read from, which the count bounds
    refine yields_pure ?_
    rw [Bytes.ofText_of_toText? htext]
    omega

/-! ## §3. Lists -/

section

variable {α : Type} {item : Get α} {P : α → Prop}

theorem yields_timesOnto (h : Yields item P) (n : Nat) {taken : List α}
    (htaken : ∀ a ∈ taken, P a) :
    Yields (Get.timesOnto item n taken) fun as =>
      as.length = n + taken.length ∧ ∀ a ∈ as, P a := by
  induction n generalizing taken with
  | zero =>
    refine yields_pure ⟨?_, fun a ha => htaken a (List.mem_reverse.1 ha)⟩
    rw [List.length_reverse, Nat.zero_add]
  | succ n ih =>
    refine h.bind fun a ha => ?_
    -- the item goes to what was taken before, so the count of items to come drops by one
    have hmore : ∀ b ∈ a :: taken, P b := List.forall_mem_cons.2 ⟨ha, htaken⟩
    intro data as rest hrun
    obtain ⟨hlen, hall⟩ := ih hmore data as rest hrun
    rw [List.length_cons] at hlen
    exact ⟨by omega, hall⟩

/-- A list that is read has as many items as a count can say, each with the property. -/
theorem yields_list (h : Yields item P) :
    Yields (Get.list item) fun as => as.length < 2 ^ 64 ∧ ∀ a ∈ as, P a := by
  refine yields_count.bind fun n hn => ?_
  intro data as rest hrun
  have hnone : ∀ a ∈ ([] : List α), P a := fun a ha => nomatch ha
  obtain ⟨hlen, hall⟩ := yields_timesOnto h n hnone data as rest hrun
  rw [List.length_nil, Nat.add_zero] at hlen
  exact ⟨by omega, hall⟩

end

end HeaderPeer.Wire
