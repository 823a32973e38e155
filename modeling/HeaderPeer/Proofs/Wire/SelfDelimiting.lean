/-
  HeaderPeer.Proofs.Wire.SelfDelimiting — readers that know where their value ends.

  Most readers look at the bytes they take and at nothing behind them: they give a value, refuse what
  they took, or find that the bytes end too early, and whatever follows what they took makes no
  difference (`SelfDelimiting`).  This goes along with the way readers are put together.  What is
  cut off from something that is read to its end is then never read.

  Main statements:
    * `SelfDelimiting.bind`, `selfDelimiting_list`, `selfDelimiting_mapM`.
    * `SelfDelimiting.cut` — what was written and is cut off ends too early.
    * `SelfDelimiting.prefix_free` — nothing that is read to its end begins with another such thing.
-/
import HeaderPeer.Proofs.Wire.RoundTrip

namespace HeaderPeer.Wire

/-- The bytes ended before the value did. -/
def Error.IsEnd : Error → Prop
  | .endOfData _ _ => True
  | _ => False

/-- What becomes of the bytes that a reader is given. -/
inductive Fate {α : Type} (g : Get α) (data : Bytes) : Prop where
  /-- They end too early. -/
  | ended (needed remaining : Nat) (rest : Bytes)
      (run_eq : g.run data = .error (.endOfData needed remaining) rest)
  /-- Those taken are refused, whatever follows them. -/
  | refused (e : Error) (taken rest : Bytes) (data_eq : data = taken ++ rest) (not_end : ¬ e.IsEnd)
      (run_eq : ∀ more, g.run (taken ++ more) = .error e more)
  /-- Those taken are a value, whatever follows them. -/
  | given (a : α) (taken rest : Bytes) (data_eq : data = taken ++ rest)
      (run_eq : ∀ more, g.run (taken ++ more) = .ok a more)

/-- The reader decides by the bytes that it takes. -/
def SelfDelimiting {α : Type} (g : Get α) : Prop := ∀ data, Fate g data

/-! ## §1. Outcomes -/

section

variable {α : Type} {g : Get α} {data rest : Bytes}

/-- **A value that was read is read again from the bytes taken, whatever follows them.** -/
theorem SelfDelimiting.of_ok (hg : SelfDelimiting g) {a : α} (h : g.run data = .ok a rest) :
    ∃ taken, data = taken ++ rest ∧ ∀ more, g.run (taken ++ more) = .ok a more := by
  cases hg data with
  | ended needed remaining rest' hrun =>
    rw [h] at hrun
    cases hrun
  | refused e taken rest' hdata _ hrun =>
    have hthis := hrun rest'
    rw [← hdata, h] at hthis
    cases hthis
  | given b taken rest' hdata hrun =>
    have hthis := hrun rest'
    rw [← hdata, h] at hthis
    cases hthis
    exact ⟨taken, hdata, hrun⟩

/-- **Bytes that were refused are refused again, whatever follows them.** -/
theorem SelfDelimiting.of_error (hg : SelfDelimiting g) {e : Error} (h : g.run data = .error e rest)
    (hend : ¬ e.IsEnd) :
    ∃ taken, data = taken ++ rest ∧ ∀ more, g.run (taken ++ more) = .error e more := by
  cases hg data with
  | ended needed remaining rest' hrun =>
    rw [h] at hrun
    cases hrun
    exact absurd trivial hend
  | refused e' taken rest' hdata _ hrun =>
    have hthis := hrun rest'
    rw [← hdata, h] at hthis
    cases hthis
    exact ⟨taken, hdata, hrun⟩
  | given b taken rest' hdata hrun =>
    have hthis := hrun rest'
    rw [← hdata, h] at hthis
    cases hthis

end

/-! ## §2. Putting readers together -/

section

variable {α β : Type} {g : Get α} {k : α → Get β}

theorem selfDelimiting_pure (a : α) : SelfDelimiting (pure a : Get α) := fun data =>
  .given a [] data rfl fun _ => rfl

theorem selfDelimiting_throw {e : Error} (h : ¬ e.IsEnd) : SelfDelimiting (throw e : Get α) :=
  fun data => .refused e [] data rfl h fun _ => rfl

/-- **One reader after another.**  The second one decides by what the first one left. -/
theorem SelfDelimiting.bind (hg : SelfDelimiting g) (hk : ∀ a, SelfDelimiting (k a)) :
    SelfDelimiting (g >>= k) := by
  intro data
  cases hg data with
  | ended needed remaining rest hrun => exact .ended needed remaining rest (run_bind_error hrun)
  | refused e taken rest hdata hend hrun =>
    exact .refused e taken rest hdata hend fun more => run_bind_error (hrun more)
  | given a taken rest hdata hrun =>
    cases hk a rest with
    | ended needed remaining rest' hrun' =>
      refine .ended needed remaining rest' ?_
      rw [hdata, run_bind (hrun rest), hrun']
    | refused e taken' rest' hdata' hend hrun' =>
      refine .refused e (taken ++ taken') rest' ?_ hend fun more => ?_
      · rw [hdata, hdata', List.append_assoc]
      · rw [List.append_assoc, run_bind (hrun (taken' ++ more)), hrun']
    | given b taken' rest' hdata' hrun' =>
      refine .given b (taken ++ taken') rest' ?_ fun more => ?_
      · rw [hdata, hdata', List.append_assoc]
      · rw [List.append_assoc, run_bind (hrun (taken' ++ more)), hrun']

theorem SelfDelimiting.map (hg : SelfDelimiting g) (f : α → β) :
    SelfDelimiting (do return f (← g)) :=
  hg.bind fun a => selfDelimiting_pure (f a)

theorem selfDelimiting_ite {c : Prop} [Decidable c] {g g' : Get α} (h : SelfDelimiting g)
    (h' : SelfDelimiting g') : SelfDelimiting (if c then g else g') := by
  by_cases hc : c
  · rw [if_pos hc]
    exact h
  · rw [if_neg hc]
    exact h'

/-- A check that refuses, or lets the reader go on. -/
theorem selfDelimiting_check {c : Prop} [Decidable c] {e : Error} {k : Unit → Get α}
    (h : ¬ e.IsEnd) (hk : SelfDelimiting (k ())) :
    SelfDelimiting (if c then throw e >>= k else k ()) :=
  selfDelimiting_ite ((selfDelimiting_throw h).bind fun _ => hk) hk

end

/-! ## §3. Bytes, numbers and texts -/

/-- A fixed number of bytes: there are too few, or those behind them are not looked at. -/
theorem selfDelimiting_bytes (n : Nat) : SelfDelimiting (Get.bytes n) := by
  intro data
  by_cases hshort : data.length < n
  · exact .ended n data.length data (run_bytes_short hshort)
  · have hlen : (data.take n).length = n := by
      rw [List.length_take]
      omega
    refine .given (data.take n) (data.take n) (data.drop n) (List.take_append_drop n data).symm ?_
    intro more
    have hrun := run_bytes (data.take n) more
    rw [hlen] at hrun
    exact hrun

theorem selfDelimiting_natLE (width : Nat) : SelfDelimiting (Get.natLE width) :=
  (selfDelimiting_bytes width).map _

theorem selfDelimiting_natBE (width : Nat) : SelfDelimiting (Get.natBE width) :=
  (selfDelimiting_bytes width).map _

theorem selfDelimiting_uint8 : SelfDelimiting Get.uint8 := (selfDelimiting_natLE 1).map _

theorem selfDelimiting_uint16LE : SelfDelimiting Get.uint16LE := (selfDelimiting_natLE 2).map _

theorem selfDelimiting_uint16BE : SelfDelimiting Get.uint16BE := (selfDelimiting_natBE 2).map _

theorem selfDelimiting_uint32LE : SelfDelimiting Get.uint32LE := (selfDelimiting_natLE 4).map _

theorem selfDelimiting_uint64LE : SelfDelimiting Get.uint64LE := (selfDelimiting_natLE 8).map _

theorem selfDelimiting_int32LE : SelfDelimiting Get.int32LE := selfDelimiting_uint32LE.map _

theorem selfDelimiting_int64LE : SelfDelimiting Get.int64LE := selfDelimiting_uint64LE.map _

theorem selfDelimiting_word256 : SelfDelimiting Get.word256 := (selfDelimiting_bytes 32).map _

/-- The marker byte says how many bytes follow. -/
theorem selfDelimiting_varInt : SelfDelimiting Get.varInt := by
  refine selfDelimiting_uint8.bind fun first => ?_
  refine selfDelimiting_ite (selfDelimiting_uint16LE.map _) ?_
  refine selfDelimiting_ite (selfDelimiting_uint32LE.map _) ?_
  exact selfDelimiting_ite selfDelimiting_uint64LE (selfDelimiting_pure _)

theorem selfDelimiting_count : SelfDelimiting Get.count := selfDelimiting_varInt.map _

theorem selfDelimiting_byteArray : SelfDelimiting Get.byteArray := by
  have hopt : SelfDelimiting Get.byteArray? :=
    selfDelimiting_count.bind fun n =>
      selfDelimiting_ite (selfDelimiting_pure none) ((selfDelimiting_bytes n).map some)
  exact hopt.map _

theorem selfDelimiting_text : SelfDelimiting Get.text := by
  refine selfDelimiting_count.bind fun n => (selfDelimiting_bytes n).bind fun bs => ?_
  cases bs.toText? with
  | none => exact selfDelimiting_throw id
  | some s => exact selfDelimiting_pure s

/-! ## §4. Lists -/

section

variable {α β : Type} {item : Get α}

theorem selfDelimiting_timesOnto (h : SelfDelimiting item) (n : Nat) (taken : List α) :
    SelfDelimiting (Get.timesOnto item n taken) := by
  induction n generalizing taken with
  | zero => exact selfDelimiting_pure taken.reverse
  | succ n ih => exact h.bind fun a => ih (a :: taken)

theorem selfDelimiting_list (h : SelfDelimiting item) : SelfDelimiting (Get.list item) :=
  selfDelimiting_count.bind fun n => selfDelimiting_timesOnto h n []

/-- One value for each item of a list that is known already. -/
theorem selfDelimiting_mapM {f : β → Get α} (h : ∀ b, SelfDelimiting (f b)) (items : List β) :
    SelfDelimiting (items.mapM f) := by
  induction items with
  | nil => exact selfDelimiting_pure []
  | cons b items ih =>
    rw [List.mapM_cons]
    exact (h b).bind fun a => ih.map _

end

/-! ## §5. What was written and is cut off -/

section

variable {α : Type} {g : Get α} {a : α} {front whole : Bytes}

/-- **What was written and is cut off ends too early.**  A value or a refusal would be the same with
the bytes that are missing, but with them there is a value that takes them all. -/
theorem SelfDelimiting.cut (hg : SelfDelimiting g) (hwhole : g.run whole = .ok a [])
    (hpart : front <+: whole) (hne : front ≠ whole) :
    ∃ needed remaining rest, g.run front = .error (.endOfData needed remaining) rest := by
  obtain ⟨missing, rfl⟩ := hpart
  cases hg front with
  | ended needed remaining rest hrun => exact ⟨needed, remaining, rest, hrun⟩
  | refused e taken rest hfront _ hrun =>
    rw [hfront, List.append_assoc, hrun] at hwhole
    cases hwhole
  | given b taken rest hfront hrun =>
    rw [hfront, List.append_assoc, hrun] at hwhole
    injection hwhole with hvalue hrest
    have hnone : missing = [] := (List.append_eq_nil_iff.1 hrest).2
    rw [hnone, List.append_nil] at hne
    exact absurd rfl hne

/-- **Nothing that is read to its end begins with another such thing.** -/
theorem SelfDelimiting.prefix_free {b : α} (hg : SelfDelimiting g)
    (hfront : g.run front = .ok a []) (hwhole : g.run whole = .ok b []) (hpart : front <+: whole) :
    front = whole := by
  by_cases hsame : front = whole
  · exact hsame
  · obtain ⟨needed, remaining, rest, hrun⟩ := hg.cut hwhole hpart hsame
    rw [hfront] at hrun
    cases hrun

end

end HeaderPeer.Wire
