/-
  HeaderPeer.Proofs.Merkle.Binding — a root commits to its leaves, up to a collision of the digest.

  Two trees over as many leaves each have the same shape, so equal roots can be traced down level by
  level: where all entries of a level agree, the pairs below them either agree as well or show two
  inputs of the digest with one value.  That needs the numbers of leaves to be equal; a repeated tail
  keeps the root of a shorter list (`root_by_levels`) and is no collision.

  Main statement: `root_binds`.
-/
import HeaderPeer.Proofs.Bytes
import HeaderPeer.Proofs.Merkle.Levels

namespace HeaderPeer

/-- Two different byte strings with the same digest. -/
structure Hasher.Collision (h : Hasher) (bs bs' : Bytes) : Prop where
  ne : bs ≠ bs'
  digest_eq : h.digest bs = h.digest bs'

/-- Two words are written into a digest one after the other, so the bytes tell them apart. -/
theorem Hasher.collision_of_digestPair (h : Hasher) {pair pair' : Word256 × Word256}
    (hne : pair ≠ pair') (hsame : h.digestPair pair.1 pair.2 = h.digestPair pair'.1 pair'.2) :
    h.Collision (pair.1.toBytes ++ pair.2.toBytes) (pair'.1.toBytes ++ pair'.2.toBytes) where
  ne hbytes := by
    have hlen : pair.1.toBytes.length = pair'.1.toBytes.length := by simp
    obtain ⟨hleft, hright⟩ := List.append_inj hbytes hlen
    apply hne
    apply Prod.ext
    · rw [← Word256.ofBytes_toBytes pair.1, hleft, Word256.ofBytes_toBytes]
    · rw [← Word256.ofBytes_toBytes pair.2, hright, Word256.ofBytes_toBytes]
  digest_eq := hsame

namespace Merkle

variable {h : Hasher} {leaves leaves' : List Word256} {level top : Nat}

/-! ## §1. Corresponding pairs -/

/-- The two entries that an entry of the next level digests. -/
def pairAt (h : Hasher) (leaves : List Word256) (level place : Nat) : Word256 × Word256 :=
  (node h leaves level (2 * place),
    node h leaves level (min (2 * place + 1) (width leaves.length level - 1)))

theorem node_succ (h : Hasher) (leaves : List Word256) (level place : Nat) :
    node h leaves (level + 1) place
      = h.digestPair (pairAt h leaves level place).1 (pairAt h leaves level place).2 := rfl

/-- At one place of one level the two trees digest different pairs to the same word. -/
structure Clash (h : Hasher) (leaves leaves' : List Word256) (level place : Nat) : Prop where
  /-- The level has entries to be paired up. -/
  several : 2 ≤ width leaves.length level
  /-- The place is one of the level above. -/
  place_lt : place < width leaves.length (level + 1)
  ne : pairAt h leaves level place ≠ pairAt h leaves' level place
  digest_eq : h.digestPair (pairAt h leaves level place).1 (pairAt h leaves level place).2
    = h.digestPair (pairAt h leaves' level place).1 (pairAt h leaves' level place).2

/-- The entries of a level are the same in both trees. -/
def Agree (h : Hasher) (leaves leaves' : List Word256) (level : Nat) : Prop :=
  ∀ place < width leaves.length level, node h leaves level place = node h leaves' level place

/-! ## §2. One level down -/

/-- Every entry of a level is in the pair below some entry of the next level. -/
theorem agree_of_pairs (hlen : leaves.length = leaves'.length)
    (hpairs : ∀ place < width leaves.length (level + 1),
      pairAt h leaves level place = pairAt h leaves' level place) : Agree h leaves leaves' level := by
  intro place hplace
  have habove : place / 2 < width leaves.length (level + 1) := by
    show place / 2 < (width leaves.length level + 1) / 2
    omega
  have hpair := hpairs (place / 2) habove
  simp only [pairAt, ← hlen, Prod.mk.injEq] at hpair
  obtain heven | hodd := Nat.mod_two_eq_zero_or_one place
  · have hleft : 2 * (place / 2) = place := by omega
    rw [hleft] at hpair
    exact hpair.1
  · have hright : min (2 * (place / 2) + 1) (width leaves.length level - 1) = place := by omega
    rw [hright] at hpair
    exact hpair.2

/-- **Trees that agree at a level agree one level below, or clash there.** -/
theorem agree_or_clash (hlen : leaves.length = leaves'.length)
    (hseveral : 2 ≤ width leaves.length level) (habove : Agree h leaves leaves' (level + 1)) :
    Agree h leaves leaves' level ∨ ∃ place, Clash h leaves leaves' level place := by
  by_cases hpairs : ∀ place < width leaves.length (level + 1),
      pairAt h leaves level place = pairAt h leaves' level place
  · exact .inl (agree_of_pairs hlen hpairs)
  · right
    push Not at hpairs
    obtain ⟨place, hplace, hne⟩ := hpairs
    have hdigest := habove place hplace
    rw [node_succ, node_succ] at hdigest
    exact ⟨place, hseveral, hplace, hne, hdigest⟩

/-! ## §3. From the root to the leaves -/

/-- Below a level at which the trees agree, they agree down to the leaves or clash on the way. -/
theorem agree_leaves_or_clash (hlen : leaves.length = leaves'.length) :
    ∀ level, (∀ below < level, 2 ≤ width leaves.length below) → Agree h leaves leaves' level →
      Agree h leaves leaves' 0 ∨ ∃ below place, Clash h leaves leaves' below place
  | 0, _, hagree => .inl hagree
  | level + 1, hseveral, hagree => by
    obtain hdown | ⟨place, hclash⟩ :=
      agree_or_clash hlen (hseveral level (Nat.lt_succ_self level)) hagree
    · exact agree_leaves_or_clash hlen level
        (fun below hbelow => hseveral below (Nat.lt_succ_of_lt hbelow)) hdown
    · exact .inr ⟨level, place, hclash⟩

/-- At the level of the leaves, trees that agree have the same leaves. -/
theorem eq_of_agree (hlen : leaves.length = leaves'.length) (hagree : Agree h leaves leaves' 0) :
    leaves = leaves' := by
  apply List.ext_getElem hlen
  intro place hplace hplace'
  have hsame : leaves.getD place 0 = leaves'.getD place 0 := hagree place hplace
  rw [List.getD_eq_getElem?_getD, List.getD_eq_getElem?_getD, List.getElem?_eq_getElem hplace,
    List.getElem?_eq_getElem hplace'] at hsame
  exact hsame

/-- The first level with a single entry is the same for as many leaves. -/
theorem Top.unique {count level level' : Nat} (hlevel : Top count level)
    (hlevel' : Top count level') : level = level' := by
  obtain hlt | heq | hgt := Nat.lt_trichotomy level level'
  · exact absurd hlevel.single (hlevel'.first level hlt)
  · exact heq
  · exact absurd hlevel'.single (hlevel.first level' hgt)

/-- **A root binds as many leaves.**  Two lists of one length with one root are the same, or their
trees have, at the same place of the same level, different pairs with one digest; the bytes of these
pairs are a collision. -/
theorem root_binds (h : Hasher) (leaves leaves' : List Word256) (hne : leaves ≠ [])
    (hlen : leaves.length = leaves'.length) (hroot : root h leaves = root h leaves') :
    leaves = leaves' ∨ ∃ level place, Clash h leaves leaves' level place
      ∧ h.Collision
        ((pairAt h leaves level place).1.toBytes ++ (pairAt h leaves level place).2.toBytes)
        ((pairAt h leaves' level place).1.toBytes ++ (pairAt h leaves' level place).2.toBytes) := by
  have hne' : leaves' ≠ [] := by
    rintro rfl
    exact hne (List.eq_nil_of_length_eq_zero hlen)
  obtain ⟨top, htop, hnode⟩ := root_eq_node h leaves hne
  obtain ⟨top', htop', hnode'⟩ := root_eq_node h leaves' hne'
  rw [← hlen] at htop'
  obtain rfl := htop.unique htop'
  have hagree : Agree h leaves leaves' top := by
    intro place hplace
    rw [htop.single] at hplace
    obtain rfl : place = 0 := by omega
    rw [← hnode, ← hnode', hroot]
  obtain hleaves | ⟨level, place, hclash⟩ :=
    agree_leaves_or_clash hlen top (fun below hbelow => htop.two_le_width hbelow) hagree
  · exact .inl (eq_of_agree hlen hleaves)
  · exact .inr ⟨level, place, hclash, h.collision_of_digestPair hclash.ne hclash.digest_eq⟩

/-- A digest that looks at the first word only, and two lists that it cannot tell apart. -/
theorem first_word_digest_clashes :
    ∃ level place, Clash ⟨Word256.ofBytes⟩ [1, 2, 3] [1, 5, 3] level place := by
  have hroot : root ⟨Word256.ofBytes⟩ [1, 2, 3] = root ⟨Word256.ofBytes⟩ [1, 5, 3] := by
    simp only [root, pairUp]
    decide +kernel
  obtain heq | ⟨level, place, hclash, -⟩ :=
    root_binds ⟨Word256.ofBytes⟩ [1, 2, 3] [1, 5, 3] (by decide) rfl hroot
  · exact absurd heq (by decide)
  · exact ⟨level, place, hclash⟩

end Merkle

end HeaderPeer
