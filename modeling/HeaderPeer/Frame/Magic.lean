/-
  HeaderPeer.Frame.Magic — the four bytes that open every frame, and the search for them.
-/
import HeaderPeer.Bytes

namespace HeaderPeer

/-- The bytes that open every frame of a network. -/
abbrev Magic := Vector UInt8 4

namespace Magic

/-- Where the magic was found in a byte string. -/
inductive Search where
  /-- All of it, after `skipped` bytes. -/
  | found (skipped : Nat)
  /-- Its beginning, after `skipped` bytes and up to the end of the input. -/
  | cut (skipped : Nat)
  /-- No part of it that later bytes could complete. -/
  | missing
  deriving DecidableEq, Repr

/-- Looks for the magic, leftmost first; `skipped` bytes of the whole input stand before these. -/
def searchFrom (magic : Bytes) (skipped : Nat) : Bytes → Search
  | [] => .missing
  | b :: rest =>
    if magic.isPrefixOf (b :: rest) then .found skipped
    else if (b :: rest).isPrefixOf magic then .cut skipped
    else searchFrom magic (skipped + 1) rest

/-- Looks for the magic in a byte string, leftmost first. -/
def search (magic : Magic) (input : Bytes) : Search := searchFrom magic.toList 0 input

theorem le_of_searchFrom_found {magic input : Bytes} {before skipped : Nat}
    (h : searchFrom magic before input = .found skipped) :
    skipped + magic.length ≤ before + input.length := by
  induction input generalizing before with
  | nil => cases h
  | cons b rest ih =>
    rw [searchFrom] at h
    split at h
    · next hhere =>
      cases h
      have := (List.isPrefixOf_iff_prefix.1 hhere).length_le
      omega
    · split at h
      · cases h
      · have := ih h
        rw [List.length_cons]
        omega

/-- The magic that was found lies inside the input. -/
theorem le_of_search_found {magic : Magic} {input : Bytes} {skipped : Nat}
    (h : magic.search input = .found skipped) : skipped + 4 ≤ input.length := by
  simpa using le_of_searchFrom_found h

end Magic

end HeaderPeer
