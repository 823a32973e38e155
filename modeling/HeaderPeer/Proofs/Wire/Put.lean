/-
  HeaderPeer.Proofs.Wire.Put — what a writer writes.

  A writer gets a buffer and gives a longer one, and it could look at what the buffer holds or
  report any number.  `Writes` says that it does neither: it adds the same bytes to every buffer and
  reports how many they are.  Writers that are put together of such writers are such writers.
-/
import HeaderPeer.Wire.Codec

namespace HeaderPeer.Wire

namespace Output

theorem append_nil (out : Output) : out.append [] = out := by
  show Output.mk (out.data ++ ([] : Bytes)) = out
  rw [Array.appendList_nil]

theorem append_append (out : Output) (bs more : Bytes) :
    (out.append bs).append more = out.append (bs ++ more) := by
  show Output.mk (out.data ++ bs ++ more) = Output.mk (out.data ++ (bs ++ more))
  congr 1
  apply Array.toList_inj.1
  simp

end Output

/-! ## §1. Putting writers together -/

namespace Put

@[ext] theorem ext {p q : Put} (h : ∀ out, p.run out = q.run out) : p = q := by
  cases p
  cases q
  congr
  exact funext h

theorem run_append (p q : Put) (out : Output) :
    (p ++ q).run out
      = ((p.run out).1 + (q.run (p.run out).2).1, (q.run (p.run out).2).2) := rfl

theorem append_assoc (p q r : Put) : p ++ q ++ r = p ++ (q ++ r) := by
  ext out
  · simp only [run_append, Nat.add_assoc]
  · rfl

theorem nothing_append (p : Put) : nothing ++ p = p := by
  ext out
  · exact Nat.zero_add _
  · rfl

theorem append_nothing (p : Put) : p ++ nothing = p := rfl

variable {α : Type} (item : α → Put)

/-- Writes one more item, and adds to the number of bytes written before. -/
def step (acc : Nat × Output) (a : α) : Nat × Output :=
  (acc.1 + ((item a).run acc.2).1, ((item a).run acc.2).2)

theorem run_each (items : List α) (out : Output) :
    (each item items).run out = items.foldl (step item) (0, out) := rfl

/-- The number of bytes written before is only added to. -/
theorem foldl_step (items : List α) (written : Nat) (out : Output) :
    items.foldl (step item) (written, out)
      = (written + (items.foldl (step item) (0, out)).1, (items.foldl (step item) (0, out)).2) := by
  induction items generalizing written out with
  | nil => rfl
  | cons a items ih =>
    -- both sides go on behind the first item, so the hypothesis is needed for two counts
    rw [List.foldl_cons, List.foldl_cons, step, step, ih, ih (0 + _)]
    simp only [Nat.zero_add, Nat.add_assoc]

theorem each_cons (a : α) (items : List α) :
    each item (a :: items) = item a ++ each item items := by
  ext out : 1
  rw [run_each, List.foldl_cons, step, foldl_step, Nat.zero_add]
  rfl

/-- A change that no item shows when it is written does not show when they all are. -/
theorem list_map {f : α → α} (h : ∀ a, item (f a) = item a) (items : List α) :
    list item (items.map f) = list item items := by
  have heach : each item (items.map f) = each item items := by
    induction items with
    | nil => rfl
    | cons a items ih => rw [List.map_cons, each_cons, each_cons, h, ih]
  rw [list, list, heach, List.length_map]

/-! ## §2. Writers that add the same bytes to every buffer -/

/-- The writer adds `bs` to whatever there is and reports how many bytes that is. -/
def Writes (p : Put) (bs : Bytes) : Prop := ∀ out, p.run out = (bs.length, out.append bs)

theorem writes_nothing : nothing.Writes [] := by
  intro out
  rw [Output.append_nil]
  rfl

theorem writes_fixed {width : Nat} {bs : Bytes} (h : bs.length = width) :
    (fixed width bs).Writes bs := by
  intro out
  rw [h]
  rfl

/-- What a writer adds to an empty buffer is what it adds to all of them. -/
theorem Writes.run_empty {p : Put} {bs : Bytes} (h : p.Writes bs) :
    (p.run .empty).2.toBytes = bs := by
  rw [h, Output.toBytes_append, Output.toBytes_empty, List.nil_append]

theorem Writes.append {p q : Put} {bs more : Bytes} (hp : p.Writes bs) (hq : q.Writes more) :
    (p ++ q).Writes (bs ++ more) := by
  intro out
  rw [run_append, hp, hq, List.length_append, Output.append_append]

end Put

/-! ## §3. What is written to an empty buffer -/

variable {α : Type} [Codec α] {l : Layout} {a : α} {bs : Bytes}

theorem encode_of_writes (h : (Codec.write l a).Writes bs) : encode l a = bs := h.run_empty

end HeaderPeer.Wire
