/-
  HeaderPeer.Proofs.Wire.Consumes — how many bytes a reader takes for what it gives.

  A count says in a few bytes how many items follow, and whoever sends it may say anything up to
  2^64 - 1.  But what is counted has to stand there as well.  `Consumes` sets a value beside the
  number of bytes that it was read from, wherever a reader succeeds, and goes along with the way
  readers are put together.  Where each item takes a byte, a list has no more items than bytes
  behind its count; and where the count says more, the reader comes to an item that it refuses before
  it has asked for more items than that.

  Main statements:
    * `Consumes.bind`, `consumes_list`, `consumes_mapM`.
    * `run_timesOnto` — an exact account of reading items one by one.
    * `runsDry_list` — a count that is too large is found out in time.
-/
import HeaderPeer.Proofs.Wire.RoundTrip
import Mathlib.Algebra.GroupWithZero.Nat

namespace HeaderPeer.Wire

/-- Where `g` succeeds, it takes bytes off the front, no more than there are, and the value and the
number of bytes are related by `R`. -/
def Consumes {α : Type} (g : Get α) (R : α → Nat → Prop) : Prop :=
  ∀ data a rest, g.run data = .ok a rest → ∃ taken, data = taken ++ rest ∧ R a taken.length

/-! ## §1. Putting readers together -/

section

variable {α β : Type} {g : Get α} {k : α → Get β} {R S : α → Nat → Prop} {T : β → Nat → Prop}

theorem consumes_pure {a : α} (h : R a 0) : Consumes (pure a) R := by
  intro data b rest hrun
  cases hrun
  exact ⟨[], rfl, h⟩

theorem consumes_throw (e : Error) (R : α → Nat → Prop) : Consumes (throw e) R := by
  intro data a rest hrun
  cases hrun

theorem Consumes.mono (hg : Consumes g R) (h : ∀ a n, R a n → S a n) : Consumes g S := by
  intro data a rest hrun
  obtain ⟨taken, hdata, ha⟩ := hg data a rest hrun
  exact ⟨taken, hdata, h a _ ha⟩

/-- **One reader after another** takes what each of them takes. -/
theorem Consumes.bind (hg : Consumes g R)
    (hk : ∀ a n, R a n → Consumes (k a) fun b m => T b (n + m)) : Consumes (g >>= k) T := by
  intro data b rest hrun
  obtain ⟨a, mid, ha, hb⟩ := ok_of_run_bind hrun
  obtain ⟨front, rfl, hfront⟩ := hg data a mid ha
  obtain ⟨taken, rfl, htaken⟩ := hk a _ hfront mid b rest hb
  refine ⟨front ++ taken, (List.append_assoc front taken rest).symm, ?_⟩
  rw [List.length_append]
  exact htaken

theorem Consumes.map (hg : Consumes g R) {f : α → β} (hf : ∀ a n, R a n → T (f a) n) :
    Consumes (do return f (← g)) T :=
  hg.bind fun a n ha => consumes_pure (hf a n ha)

theorem consumes_ite {c : Prop} [Decidable c] {g g' : Get α} (h : c → Consumes g R)
    (h' : ¬ c → Consumes g' R) : Consumes (if c then g else g') R := by
  by_cases hc : c
  · rw [if_pos hc]
    exact h hc
  · rw [if_neg hc]
    exact h' hc

/-- A check that refuses takes nothing, and otherwise it is as if it was not there. -/
theorem consumes_check {c : Prop} [Decidable c] {e : Error} {k : Unit → Get α}
    (hk : Consumes (k ()) R) : Consumes (if c then throw e >>= k else k ()) R :=
  consumes_ite (fun _ => (consumes_throw e fun _ _ => False).bind fun _ _ h => h.elim) fun _ => hk

end

/-! ## §2. Bytes, numbers and texts -/

theorem consumes_bytes (n : Nat) : Consumes (Get.bytes n) fun bs m => bs.length = n ∧ m = n := by
  intro data bs rest hrun
  obtain ⟨hdata, hlen⟩ := ok_of_run_bytes hrun
  exact ⟨bs, hdata, hlen, hlen⟩

theorem consumes_natLE (width : Nat) : Consumes (Get.natLE width) fun _ m => m = width :=
  (consumes_bytes width).map fun _ _ h => h.2

theorem consumes_natBE (width : Nat) : Consumes (Get.natBE width) fun _ m => m = width :=
  (consumes_bytes width).map fun _ _ h => h.2

theorem consumes_uint8 : Consumes Get.uint8 fun _ m => m = 1 :=
  (consumes_natLE 1).map fun _ _ h => h

theorem consumes_uint16LE : Consumes Get.uint16LE fun _ m => m = 2 :=
  (consumes_natLE 2).map fun _ _ h => h

theorem consumes_uint16BE : Consumes Get.uint16BE fun _ m => m = 2 :=
  (consumes_natBE 2).map fun _ _ h => h

theorem consumes_uint32LE : Consumes Get.uint32LE fun _ m => m = 4 :=
  (consumes_natLE 4).map fun _ _ h => h

theorem consumes_uint64LE : Consumes Get.uint64LE fun _ m => m = 8 :=
  (consumes_natLE 8).map fun _ _ h => h

theorem consumes_int32LE : Consumes Get.int32LE fun _ m => m = 4 :=
  consumes_uint32LE.map fun _ _ h => h

theorem consumes_int64LE : Consumes Get.int64LE fun _ m => m = 8 :=
  consumes_uint64LE.map fun _ _ h => h

theorem consumes_bool : Consumes Get.bool fun _ m => m = 1 := consumes_uint8.map fun _ _ h => h

theorem consumes_word256 : Consumes Get.word256 fun _ m => m = 32 :=
  (consumes_bytes 32).map fun _ _ h => h.2

/-- Whether anything is left can be seen without taking it. -/
theorem consumes_atEnd : Consumes Get.atEnd fun _ m => m = 0 := by
  intro data b rest hrun
  cases hrun
  exact ⟨[], rfl, rfl⟩

/-- A var int has a first byte. -/
theorem consumes_varInt : Consumes Get.varInt fun _ m => 1 ≤ m := by
  refine consumes_uint8.bind fun first n hn => ?_
  refine consumes_ite (fun _ => consumes_uint16LE.map fun _ m _ => by omega) fun _ => ?_
  refine consumes_ite (fun _ => consumes_uint32LE.map fun _ m _ => by omega) fun _ => ?_
  refine consumes_ite (fun _ => consumes_uint64LE.mono fun _ m _ => by omega) fun _ => ?_
  exact consumes_pure (by omega)

theorem consumes_count : Consumes Get.count fun _ m => 1 ≤ m := consumes_varInt.map fun _ _ h => h

/-- A byte string takes its bytes and a count, also when it is empty. -/
theorem consumes_byteArray : Consumes Get.byteArray fun bs m => bs.length + 1 ≤ m := by
  have hopt : Consumes Get.byteArray? fun o m => (o.getD []).length + 1 ≤ m := by
    refine consumes_count.bind fun n m hm => consumes_ite (fun _ => ?_) fun _ => ?_
    · refine consumes_pure ?_
      show 0 + 1 ≤ m + 0
      omega
    · refine (consumes_bytes n).map fun bs k hbs => ?_
      show bs.length + 1 ≤ m + k
      omega
  exact hopt.map fun _ _ h => h

theorem consumes_text : Consumes Get.text fun s m => (Bytes.ofText s).length + 1 ≤ m := by
  refine consumes_count.bind fun n m hm => (consumes_bytes n).bind fun bs k hbs => ?_
  cases htext : bs.toText? with
  | none => exact consumes_throw _ _
  | some s =>
    refine consumes_pure ?_
    rw [Bytes.ofText_of_toText? htext]
    omega

/-! ## §3. Items one by one -/

/-- The items that stand at the front of `data`, one after the other, and what is left behind
them. -/
inductive Reads {α : Type} (item : Get α) : Bytes → List α → Bytes → Prop where
  | nil (data : Bytes) : Reads item data [] data
  | cons {data mid rest : Bytes} {a : α} {items : List α} (ha : item.run data = .ok a mid)
    (hmore : Reads item mid items rest) : Reads item data (a :: items) rest

section

variable {α : Type} {item : Get α} {data rest : Bytes} {items : List α}

/-- **What reading items one by one comes to**: all of them stand there and are given in order, or
one is refused behind some that stand there, and with it the whole. -/
theorem run_timesOnto (item : Get α) (n : Nat) (before : List α) (data : Bytes) :
    (∃ items rest, items.length = n ∧ Reads item data items rest
        ∧ (Get.timesOnto item n before).run data = .ok (before.reverse ++ items) rest)
      ∨ ∃ items mid e rest, items.length < n ∧ Reads item data items mid
        ∧ item.run mid = .error e rest ∧ (Get.timesOnto item n before).run data = .error e rest := by
  induction n generalizing before data with
  | zero =>
    refine .inl ⟨[], data, rfl, .nil data, ?_⟩
    rw [List.append_nil]
    rfl
  | succ n ih =>
    cases ha : item.run data with
    | ok a mid =>
      have hstep : (Get.timesOnto item (n + 1) before).run data
          = (Get.timesOnto item n (a :: before)).run mid := run_bind ha
      rw [hstep]
      rcases ih (a :: before) mid with
        ⟨items, rest, hlen, hreads, hrun⟩ | ⟨items, mid', e, rest, hlen, hreads, hitem, hrun⟩
      · refine .inl ⟨a :: items, rest, congrArg (· + 1) hlen, .cons ha hreads, ?_⟩
        rw [hrun, List.reverse_cons, List.append_assoc, List.singleton_append]
      · exact .inr ⟨a :: items, mid', e, rest, Nat.succ_lt_succ hlen, .cons ha hreads, hitem, hrun⟩
    | error e rest =>
      -- the loop ends here, whatever the count says
      exact .inr ⟨[], data, e, rest, Nat.succ_pos n, .nil data, ha, run_bind_error ha⟩

/-- How many things a list brings: its items, and what each of them brings. -/
def loads (load : α → Nat) (items : List α) : Nat := items.length + (items.map load).sum

@[simp] theorem loads_nil (load : α → Nat) : loads load [] = 0 := rfl

@[simp] theorem loads_cons (load : α → Nat) (a : α) (items : List α) :
    loads load (a :: items) = load a + 1 + loads load items := by
  rw [loads, loads, List.length_cons, List.map_cons, List.sum_cons]
  omega

/-- Items that take a byte for each thing that they bring, and one more, pay for the list. -/
theorem Reads.consumes (load : α → Nat) (hitem : Consumes item fun a n => load a + 1 ≤ n)
    (h : Reads item data items rest) :
    ∃ taken, data = taken ++ rest ∧ loads load items ≤ taken.length := by
  induction h with
  | nil data => exact ⟨[], rfl, Nat.le_refl 0⟩
  | cons ha _ ih =>
    obtain ⟨front, rfl, hfront⟩ := hitem _ _ _ ha
    obtain ⟨taken, rfl, htaken⟩ := ih
    refine ⟨front ++ taken, (List.append_assoc _ _ _).symm, ?_⟩
    rw [loads_cons, List.length_append]
    omega

/-- There are no more items than bytes. -/
theorem Reads.length_le (hitem : Consumes item fun _ n => 1 ≤ n)
    (h : Reads item data items rest) : items.length + rest.length ≤ data.length := by
  obtain ⟨taken, rfl, htaken⟩ := h.consumes (fun _ => 0) hitem
  rw [loads] at htaken
  rw [List.length_append]
  omega

end

/-! ## §4. Lists -/

section

variable {α β : Type} {item : Get α} {data behind : Bytes} {n : Nat}

/-- **A list takes a byte for each of its items, and one for each thing that an item brings.** -/
theorem consumes_list (load : α → Nat) (hitem : Consumes item fun a n => load a + 1 ≤ n) :
    Consumes (Get.list item) fun items n => loads load items + 1 ≤ n := by
  intro data items rest hrun
  obtain ⟨n, behind, hcount, htimes⟩ := ok_of_run_bind hrun
  obtain ⟨front, rfl, hfront⟩ := consumes_count data n behind hcount
  rcases run_timesOnto item n [] behind with
    ⟨items', rest', -, hreads, hitems⟩ | ⟨items', mid, e, rest', -, -, -, herror⟩
  · rw [Get.times, hitems] at htimes
    cases htimes
    obtain ⟨taken, rfl, htaken⟩ := hreads.consumes load hitem
    refine ⟨front ++ taken, (List.append_assoc _ _ _).symm, ?_⟩
    rw [List.reverse_nil, List.nil_append, List.length_append]
    omega
  · rw [Get.times, herror] at htimes
    cases htimes

/-- Values that are read for items that are known already bring what those brought, and what the
bytes pay for. -/
theorem consumes_mapM {f : β → Get α} {before : β → Nat} {load : α → Nat}
    (h : ∀ b, Consumes (f b) fun a n => load a ≤ before b + n) (items : List β) :
    Consumes (items.mapM f) fun as n => loads load as ≤ loads before items + n := by
  induction items with
  | nil => exact consumes_pure (Nat.le_refl 0)
  | cons b items ih =>
    rw [List.mapM_cons]
    refine (h b).bind fun a n ha => ih.map fun as m has => ?_
    rw [loads_cons, loads_cons]
    omega

/-- The reader `whole` fails on `data`: from `behind` on it reads one item after another until one
is refused, and it does not ask for more items than there are bytes, and one. -/
def RunsDry (item : Get α) (whole : Get β) (data behind : Bytes) : Prop :=
  ∃ items mid e rest, Reads item behind items mid ∧ item.run mid = .error e rest
    ∧ whole.run data = .error e rest ∧ items.length + 1 ≤ behind.length + 1

/-- **A count that is larger than the number of bytes behind it is found out in time.** -/
theorem runsDry_list (hitem : Consumes item fun _ n => 1 ≤ n)
    (hcount : Get.count.run data = .ok n behind) (hshort : behind.length < n) :
    RunsDry item (Get.list item) data behind := by
  have hlist : (Get.list item).run data = (Get.timesOnto item n []).run behind := run_bind hcount
  rcases run_timesOnto item n [] behind with
    ⟨items, rest, hlen, hreads, -⟩ | ⟨items, mid, e, rest, -, hreads, hrefused, hrun⟩
  · -- all the items would need a byte each
    have hle := hreads.length_le hitem
    omega
  · have hle := hreads.length_le hitem
    exact ⟨items, mid, e, rest, hreads, hrefused, hlist.trans hrun, by omega⟩

end

end HeaderPeer.Wire
