/-
  HeaderPeer.Proofs.Frame.Parse — what a whole stream of frames says.

  The parse of a stream knows no stages and no buffer.  It goes to the next magic, looks at the
  frame that begins there, and goes on behind that frame; what cannot be decided yet is the rest of
  the stream.  It is the meaning that a receiver gives to a stream bit by bit.

  Main statements:
    * `skip_append` — more bytes never make the search go back behind what it has passed over.
    * `front_eq_unfinished_iff` — how long a frame is waited for.
    * `front_append` — what was said of a frame stays true when more bytes follow it.
    * `parse_append` — more bytes add to the parse of a stream what they add to its rest.
-/
import HeaderPeer.Frame.Receiver
import Mathlib.Data.List.Infix

namespace HeaderPeer

/-! ## §1. The next magic -/

namespace Magic

/-- Whether the magic stands at the front of a byte string, or would if the right bytes followed. -/
def Meets (magic bs : Bytes) : Prop := magic <+: bs ∨ bs <+: magic

instance (magic bs : Bytes) : Decidable (Meets magic bs) :=
  inferInstanceAs (Decidable (_ ∨ _))

/-- How many bytes stand before the next frame: those before the leftmost occurrence of the magic
or, if it does not occur, those before the longest end of the stream with which the magic begins. -/
def skip (magic : Magic) (bs : Bytes) : Nat :=
  (bs.tails.findIdx? fun t => magic.toList.isPrefixOf t).getD
    (bs.tails.findIdx fun t => t.isPrefixOf magic.toList)

theorem Meets.of_append {magic bs : Bytes} (more : Bytes) (h : Meets magic (bs ++ more)) :
    Meets magic bs := by
  rcases h with h | h
  · exact List.prefix_or_prefix_of_prefix h (List.prefix_append bs more)
  · exact .inr ((List.prefix_append bs more).trans h)

/-- Four bytes that meet the magic are the magic. -/
theorem Meets.begins {magic : Magic} {bs : Bytes} (h : Meets magic.toList bs)
    (hlen : 4 ≤ bs.length) : magic.toList <+: bs := by
  rcases h with h | h
  · exact h
  · have hle := h.length_le
    rw [Vector.length_toList] at hle
    rw [h.eq_of_length (by rw [Vector.length_toList]; omega)]

@[simp] theorem skip_nil (magic : Magic) : skip magic [] = 0 := by
  have hempty : List.isPrefixOf ([] : Bytes) magic.toList = true :=
    List.isPrefixOf_iff_prefix.2 List.nil_prefix
  cases h : magic.toList.isPrefixOf ([] : Bytes) <;> simp [skip, h, hempty]

/-- The search goes on by one byte where the magic is not met. -/
theorem skip_cons (magic : Magic) (b : UInt8) (rest : Bytes) :
    skip magic (b :: rest) = if Meets magic.toList (b :: rest) then 0 else skip magic rest + 1 := by
  by_cases hfull : magic.toList <+: b :: rest
  · rw [if_pos (.inl hfull), skip, List.tails, List.findIdx?_cons,
      if_pos (List.isPrefixOf_iff_prefix.2 hfull), Option.getD_some]
  · have hnot : ¬ magic.toList.isPrefixOf (b :: rest) = true := fun h =>
      hfull (List.isPrefixOf_iff_prefix.1 h)
    rw [skip, List.tails, List.findIdx?_cons, if_neg hnot]
    cases hfind : rest.tails.findIdx? fun t => magic.toList.isPrefixOf t with
    | some i =>
      -- the magic fits into `rest`, so `b :: rest` is too long to be a part of it
      obtain ⟨t, ht, hpre⟩ : ∃ t ∈ rest.tails, magic.toList.isPrefixOf t = true := by
        obtain ⟨hi, hpre, -⟩ := List.findIdx?_eq_some_iff_getElem.1 hfind
        exact ⟨_, List.getElem_mem hi, hpre⟩
      have hshort := (List.isPrefixOf_iff_prefix.1 hpre).length_le
      have hsuffix := ((List.mem_tails _ _).1 ht).length_le
      have hpart : ¬ Meets magic.toList (b :: rest) := by
        rintro (h | h)
        · exact hfull h
        · have hle := h.length_le
          rw [List.length_cons] at hle
          omega
      rw [if_neg hpart, skip, hfind]
      rfl
    | none =>
      -- the magic does not occur, so it is the longest end that counts
      rw [Option.map_none, Option.getD_none, List.findIdx_cons]
      by_cases hpart : b :: rest <+: magic.toList
      · rw [if_pos (.inr hpart), List.isPrefixOf_iff_prefix.2 hpart]
        rfl
      · have hnotpart : List.isPrefixOf (b :: rest) magic.toList = false := by
          rw [Bool.eq_false_iff]
          exact fun h => hpart (List.isPrefixOf_iff_prefix.1 h)
        rw [if_neg (fun h => h.elim hfull hpart), hnotpart, skip, hfind]
        rfl

theorem skip_of_meets {magic : Magic} {bs : Bytes} (h : Meets magic.toList bs) :
    skip magic bs = 0 := by
  cases bs with
  | nil => exact skip_nil magic
  | cons b rest => rw [skip_cons, if_pos h]

/-- Once the magic was found, the frame that it opens stays where it is. -/
theorem skip_append_of_begun {magic : Magic} {bs : Bytes} (h : Meets magic.toList bs)
    (hlen : 4 ≤ bs.length) (more : Bytes) : skip magic (bs ++ more) = 0 :=
  skip_of_meets (.inl ((h.begins hlen).trans (List.prefix_append bs more)))

theorem skip_le (magic : Magic) (bs : Bytes) : skip magic bs ≤ bs.length := by
  induction bs with
  | nil => simp
  | cons b rest ih =>
    rw [skip_cons, List.length_cons]
    split <;> omega

/-- The search stops where the magic is met, at the end of the stream at the latest. -/
theorem meets_drop_skip (magic : Magic) (bs : Bytes) :
    Meets magic.toList (bs.drop (skip magic bs)) := by
  induction bs with
  | nil => exact .inr (by simp)
  | cons b rest ih =>
    rw [skip_cons]
    split
    · next h => exact h
    · exact ih

/-- **More bytes never call back what was passed over**: the search goes on from where it was. -/
theorem skip_append (magic : Magic) (bs more : Bytes) :
    skip magic (bs ++ more) = skip magic bs + skip magic (bs.drop (skip magic bs) ++ more) := by
  induction bs with
  | nil => simp
  | cons b rest ih =>
    rw [skip_cons]
    split
    · -- the search stops here for `bs`; with `more` it starts over from here
      simp
    · next hnot =>
      have hlonger : ¬ Meets magic.toList (b :: (rest ++ more)) := fun h =>
        hnot (Meets.of_append more h)
      rw [List.cons_append, skip_cons, if_neg hlonger, ih, List.drop_succ_cons]
      omega

/-- The search of a receiver stops at the same place. -/
theorem searchFrom_eq (magic : Magic) (bs : Bytes) (before : Nat) :
    searchFrom magic.toList before bs =
      if magic.toList <+: bs.drop (skip magic bs) then .found (before + skip magic bs)
      else if skip magic bs < bs.length then .cut (before + skip magic bs)
      else .missing := by
  induction bs generalizing before with
  | nil =>
    have hlong : ¬ magic.toList <+: ([] : Bytes) := fun h => by
      have hle := h.length_le
      rw [Vector.length_toList] at hle
      exact absurd hle (by decide)
    rw [searchFrom, skip_nil, List.drop_nil, if_neg hlong, List.length_nil,
      if_neg (Nat.lt_irrefl 0)]
  | cons b rest ih =>
    rw [searchFrom]
    by_cases hfull : magic.toList <+: b :: rest
    · have hskip : skip magic (b :: rest) = 0 := skip_of_meets (.inl hfull)
      rw [if_pos (List.isPrefixOf_iff_prefix.2 hfull), hskip, List.drop_zero, if_pos hfull,
        Nat.add_zero]
    · rw [if_neg (fun h => hfull (List.isPrefixOf_iff_prefix.1 h))]
      by_cases hpart : b :: rest <+: magic.toList
      · have hskip : skip magic (b :: rest) = 0 := skip_of_meets (.inr hpart)
        rw [if_pos (List.isPrefixOf_iff_prefix.2 hpart), hskip, List.drop_zero, if_neg hfull,
          if_pos (by simp), Nat.add_zero]
      · have hskip : skip magic (b :: rest) = skip magic rest + 1 := by
          rw [skip_cons, if_neg (fun h => h.elim hfull hpart)]
        rw [if_neg (fun h => hpart (List.isPrefixOf_iff_prefix.1 h)), hskip, ih,
          List.drop_succ_cons, List.length_cons, show before + 1 + skip magic rest
            = before + (skip magic rest + 1) from by omega]
        simp only [Nat.add_lt_add_iff_right]

end Magic

namespace Frame

/-! ## §2. The frame at the front -/

/-- The `width` bytes from `start` on. -/
def field (start width : Nat) (bs : Bytes) : Bytes := (bs.drop start).take width

/-- Fields of the frame that begins with `bs`; each is only meaningful once all of it is there. -/
def commandAt (bs : Bytes) : String := commandOfField (field 4 12 bs)
def lengthAt (bs : Bytes) : Nat := Bytes.toNatLE (field 16 4 bs)
def checksumAt (bs : Bytes) : Bytes := field 20 4 bs
def payloadAt (bs : Bytes) : Bytes := field 24 (lengthAt bs) bs

/-- More bytes do not change a field that is there. -/
theorem field_append {start width : Nat} {bs : Bytes} (more : Bytes)
    (hlen : start + width ≤ bs.length) : field start width (bs ++ more) = field start width bs := by
  rw [field, field, List.drop_append_of_le_length (by omega), List.take_append_of_le_length]
  rw [List.length_drop]
  omega

theorem lengthAt_append {bs : Bytes} (more : Bytes) (hlen : 20 ≤ bs.length) :
    lengthAt (bs ++ more) = lengthAt bs := by
  rw [lengthAt, field_append more hlen, lengthAt]

theorem length_payloadAt {bs : Bytes} (hlen : 24 + lengthAt bs ≤ bs.length) :
    (payloadAt bs).length = lengthAt bs := by
  rw [payloadAt, field, List.length_take, List.length_drop]
  omega

/-- What a byte string that begins with the magic says of its first frame. -/
inductive Front where
  /-- More bytes are needed. -/
  | unfinished
  /-- The stream cannot be followed any further; this many bytes of the frame count as wasted. -/
  | broken (error : FrameError) (wasted : Nat)
  /-- The frame is `size` bytes and holds a message; it counts as received or as wasted. -/
  | whole (message : Message) (received wasted size : Nat)

/-- Looks at the frame that begins with `bs`.  A length that is too large is seen before the payload
is there, all else once the payload is there. -/
def front (f : Framing) (l : Wire.Layout) (bs : Bytes) : Front :=
  let size := 24 + lengthAt bs
  if bs.length < 20 then .unfinished
  else if f.maxPayload.toNat < lengthAt bs then
    .broken (.payloadTooLarge (lengthAt bs) f.maxPayload) 0
  else if bs.length < size then .unfinished
  else if f.hasher.checksum (payloadAt bs) ≠ checksumAt bs then
    .broken (.checksumMismatch (commandAt bs) (checksumAt bs) (f.hasher.checksum (payloadAt bs))) 0
  else
    match Kind.ofCommand? (commandAt bs) with
    | none => .whole (.unknown (commandAt bs) (payloadAt bs)) 0 size size
    | some kind =>
      match Message.decode f.hasher l kind (payloadAt bs) with
      | .ok m => .whole m size 0 size
      | .error cause => .broken (.payload (commandAt bs) cause) size

theorem front_of_short {f : Framing} {l : Wire.Layout} {bs : Bytes} (h : bs.length < 20) :
    front f l bs = .unfinished := by
  rw [front, if_pos h]

/-- A frame is waited for as long as it does not say its length, and then, if that is not too large,
until all of it is there. -/
theorem front_eq_unfinished_iff {f : Framing} {l : Wire.Layout} {bs : Bytes} :
    front f l bs = .unfinished
      ↔ bs.length < 20 ∨ lengthAt bs ≤ f.maxPayload.toNat ∧ bs.length < 24 + lengthAt bs := by
  unfold front
  simp only
  constructor
  · intro h
    split at h
    · next hshort => exact .inl hshort
    · split at h
      · cases h
      · next hfit =>
        split at h
        · next hpart => exact .inr ⟨Nat.not_lt.1 hfit, hpart⟩
        · -- all of the frame is there, and is judged one way or the other
          split at h
          · cases h
          · split at h
            · cases h
            · split at h <;> cases h
  · rintro (hshort | ⟨hfit, hpart⟩)
    · rw [if_pos hshort]
    · rw [if_neg (Nat.not_lt.2 hfit), if_pos hpart, ite_self]

/-- A frame that is waited for says, as soon as it says its length, that it is not too large. -/
theorem lengthAt_le_of_unfinished {f : Framing} {l : Wire.Layout} {bs : Bytes}
    (hlen : 20 ≤ bs.length) (h : front f l bs = .unfinished) :
    lengthAt bs ≤ f.maxPayload.toNat := by
  rcases front_eq_unfinished_iff.1 h with hshort | ⟨hfit, -⟩
  · omega
  · exact hfit

/-- All of a whole frame is there, and its bytes count as received or as wasted. -/
theorem front_whole_cases {f : Framing} {l : Wire.Layout} {bs : Bytes} {m : Message}
    {received wasted size : Nat} (h : front f l bs = .whole m received wasted size) :
    size = 24 + lengthAt bs ∧ size ≤ bs.length
      ∧ (received = size ∧ wasted = 0 ∨ received = 0 ∧ wasted = size) := by
  unfold front at h
  simp only at h
  split at h
  · cases h
  · split at h
    · cases h
    · split at h
      · cases h
      · next hlen =>
        split at h
        · cases h
        · split at h
          · -- a command without a meaning
            cases h
            exact ⟨rfl, Nat.not_lt.1 hlen, .inr ⟨rfl, rfl⟩⟩
          · split at h
            · cases h
              exact ⟨rfl, Nat.not_lt.1 hlen, .inl ⟨rfl, rfl⟩⟩
            · cases h

/-- A whole frame has a header, and all of it is there. -/
theorem size_of_front_whole {f : Framing} {l : Wire.Layout} {bs : Bytes} {m : Message}
    {received wasted size : Nat} (h : front f l bs = .whole m received wasted size) :
    24 ≤ size ∧ size ≤ bs.length := by
  obtain ⟨hsize, hlen, -⟩ := front_whole_cases h
  exact ⟨by omega, hlen⟩

/-- The frame of a message is booked with all its bytes. -/
theorem front_whole_booked {f : Framing} {l : Wire.Layout} {bs : Bytes} {m : Message}
    {received wasted size : Nat} (h : front f l bs = .whole m received wasted size) :
    received + wasted = size := by
  obtain ⟨-, -, ⟨rfl, rfl⟩ | ⟨rfl, rfl⟩⟩ := front_whole_cases h
  · exact Nat.add_zero _
  · exact Nat.zero_add _

/-- **What was said of a frame stays true when more bytes follow it.** -/
theorem front_append (f : Framing) (l : Wire.Layout) {bs : Bytes} (more : Bytes)
    (h : front f l bs ≠ .unfinished) : front f l (bs ++ more) = front f l bs := by
  by_cases hlen : bs.length < 20
  · exact absurd (front_of_short hlen) h
  · have hsize : lengthAt (bs ++ more) = lengthAt bs := lengthAt_append more (by omega)
    have hlong : ¬ (bs ++ more).length < 20 := by
      rw [List.length_append]
      omega
    unfold front at h ⊢
    simp only at h ⊢
    rw [if_neg hlen] at h ⊢
    rw [if_neg hlong, hsize]
    by_cases hlarge : f.maxPayload.toNat < lengthAt bs
    · -- a length that is too large is all that is looked at
      rw [if_pos hlarge, if_pos hlarge]
    · rw [if_neg hlarge] at h ⊢
      rw [if_neg hlarge]
      by_cases hpayload : bs.length < 24 + lengthAt bs
      · rw [if_pos hpayload] at h
        exact absurd rfl h
      · -- the whole frame is there, so no field of it changes
        have hmore : ¬ (bs ++ more).length < 24 + lengthAt bs := by
          rw [List.length_append]
          omega
        have hcommand : commandAt (bs ++ more) = commandAt bs := by
          rw [commandAt, field_append more (by omega), commandAt]
        have hsum : checksumAt (bs ++ more) = checksumAt bs := field_append more (by omega)
        have hbody : payloadAt (bs ++ more) = payloadAt bs := by
          rw [payloadAt, hsize, field_append more (by omega), payloadAt]
        rw [if_neg hmore, if_neg hpayload, hcommand, hsum, hbody]

/-- What follows a frame has no part in what is said of it. -/
theorem front_take_of_whole {f : Framing} {l : Wire.Layout} {bs : Bytes} {m : Message}
    {received wasted size : Nat} (h : front f l bs = .whole m received wasted size) :
    front f l (bs.take size) = .whole m received wasted size := by
  obtain ⟨hsize, hlen, -⟩ := front_whole_cases h
  have htake : (bs.take size).length = size := by
    rw [List.length_take]
    omega
  have hsplit : bs.take size ++ bs.drop size = bs := List.take_append_drop size bs
  have hlength := lengthAt_append (bs.drop size) (by omega : 20 ≤ (bs.take size).length)
  rw [hsplit] at hlength
  -- the frame is there, so it is judged as it is with all that follows
  have hdone : front f l (bs.take size) ≠ .unfinished := by
    rw [Ne, front_eq_unfinished_iff, ← hlength]
    omega
  rw [← front_append f l (bs.drop size) hdone, hsplit, h]

/-! ## §3. Whole streams -/

/-- What a stream says. -/
structure Parse where
  messages : List Message
  error : Option FrameError
  /-- Bytes of frames that were understood. -/
  received : Nat
  /-- Bytes that were passed over, and those of frames that were not understood. -/
  wasted : Nat
  /-- The end of the stream, if it can be followed: a frame in progress, or a part of the magic. -/
  rest : Bytes

namespace Parse

/-- What the bytes before an error, or all bytes of a stream and then some more, say together. -/
def andThen (p q : Parse) : Parse :=
  match p.error with
  | some _ => p
  | none =>
    { messages := p.messages ++ q.messages
      error := q.error
      received := p.received + q.received
      wasted := p.wasted + q.wasted
      rest := q.rest }

theorem andThen_assoc (p q r : Parse) : (p.andThen q).andThen r = p.andThen (q.andThen r) := by
  cases hp : p.error with
  | some e => simp [andThen, hp]
  | none => cases hq : q.error <;> simp [andThen, hp, hq, Nat.add_assoc]

end Parse

/-- Behind a whole frame the stream is shorter. -/
theorem length_of_whole {f : Framing} {l : Wire.Layout} {bs : Bytes} {m : Message}
    {skipped received wasted size : Nat}
    (h : front f l (bs.drop skipped) = .whole m received wasted size) :
    skipped + size ≤ bs.length ∧ bs.length - (skipped + size) < bs.length := by
  have hsize := size_of_front_whole h
  rw [List.length_drop] at hsize
  omega

/-- Reads a stream to its end or to its first error. -/
def parse (f : Framing) (l : Wire.Layout) (bs : Bytes) : Parse :=
  let skipped := f.magic.skip bs
  match h : front f l (bs.drop skipped) with
  | .unfinished =>
    { messages := [], error := none, received := 0, wasted := skipped, rest := bs.drop skipped }
  | .broken error wasted =>
    { messages := [], error := some error, received := 0, wasted := skipped + wasted, rest := [] }
  | .whole m received wasted size =>
    have := (length_of_whole h).2
    let p := parse f l (bs.drop (skipped + size))
    { p with
      messages := m :: p.messages
      received := received + p.received
      wasted := skipped + wasted + p.wasted }
termination_by bs.length

variable {f : Framing} {l : Wire.Layout} {bs : Bytes}

theorem parse_of_unfinished (h : front f l (bs.drop (f.magic.skip bs)) = .unfinished) :
    parse f l bs = ⟨[], none, 0, f.magic.skip bs, bs.drop (f.magic.skip bs)⟩ := by
  rw [parse]
  split <;> simp_all

theorem parse_of_broken {error : FrameError} {wasted : Nat}
    (h : front f l (bs.drop (f.magic.skip bs)) = .broken error wasted) :
    parse f l bs = ⟨[], some error, 0, f.magic.skip bs + wasted, []⟩ := by
  rw [parse]
  split <;> simp_all

theorem parse_of_whole {m : Message} {received wasted size : Nat}
    (h : front f l (bs.drop (f.magic.skip bs)) = .whole m received wasted size) :
    parse f l bs =
      (Parse.mk [m] none received (f.magic.skip bs + wasted) []).andThen
        (parse f l (bs.drop (f.magic.skip bs + size))) := by
  rw [parse]
  split <;> simp_all [Parse.andThen]

/-! ## §4. Streams that go on -/

/-- Bytes that the search passes over only count as wasted. -/
theorem parse_drop {s : Nat} (hskip : f.magic.skip bs = s + f.magic.skip (bs.drop s)) :
    parse f l bs = (Parse.mk [] none 0 s []).andThen (parse f l (bs.drop s)) := by
  have hdrop : ∀ k, (bs.drop s).drop k = bs.drop (s + k) := fun k => List.drop_drop
  match h : front f l (bs.drop (f.magic.skip bs)) with
  | .unfinished =>
    -- in all three cases both parses look at the same frame, and differ in what they passed over
    rw [parse_of_unfinished h]
    rw [hskip, ← hdrop] at h
    rw [parse_of_unfinished h, hdrop, ← hskip]
    simp [Parse.andThen, hskip]
  | .broken error wasted =>
    rw [parse_of_broken h]
    rw [hskip, ← hdrop] at h
    rw [parse_of_broken h]
    simp [Parse.andThen, hskip, Nat.add_assoc]
  | .whole m received wasted size =>
    rw [parse_of_whole h]
    rw [hskip, ← hdrop] at h
    rw [parse_of_whole h, hdrop, ← Parse.andThen_assoc, hskip, Nat.add_assoc s]
    simp [Parse.andThen, Nat.add_assoc]

/-- A frame that can be judged keeps its place and its judgement when more bytes follow. -/
theorem front_skip_append (more : Bytes)
    (h : front f l (bs.drop (f.magic.skip bs)) ≠ .unfinished) :
    f.magic.skip (bs ++ more) = f.magic.skip bs ∧
      front f l ((bs ++ more).drop (f.magic.skip (bs ++ more)))
        = front f l (bs.drop (f.magic.skip bs)) := by
  have hlong : ¬ (bs.drop (f.magic.skip bs)).length < 20 := fun hlt => h (front_of_short hlt)
  have hhere := (Magic.meets_drop_skip f.magic bs).begins (by omega)
  have hskip : f.magic.skip (bs ++ more) = f.magic.skip bs := by
    rw [Magic.skip_append, Magic.skip_of_meets (.inl (hhere.trans (List.prefix_append _ _)))]
    rfl
  refine ⟨hskip, ?_⟩
  rw [hskip, List.drop_append_of_le_length (Magic.skip_le f.magic bs), front_append f l more h]

/-- **More bytes add to the parse of a stream what they add to its rest.**  The induction is on the
frames of the shorter stream. -/
theorem parse_append (f : Framing) (l : Wire.Layout) (bs more : Bytes) :
    parse f l (bs ++ more) = (parse f l bs).andThen (parse f l ((parse f l bs).rest ++ more)) := by
  match h : front f l (bs.drop (f.magic.skip bs)) with
  | .unfinished =>
    -- nothing was decided yet: the longer stream is parsed from the rest on
    have hdrop : (bs ++ more).drop (f.magic.skip bs) = bs.drop (f.magic.skip bs) ++ more :=
      List.drop_append_of_le_length (Magic.skip_le f.magic bs)
    have hskip := Magic.skip_append f.magic bs more
    rw [← hdrop] at hskip
    rw [parse_of_unfinished h, parse_drop hskip, hdrop]
    rfl
  | .broken error wasted =>
    obtain ⟨hskip, hfront⟩ := front_skip_append more (by rw [h]; exact Front.noConfusion)
    rw [parse_of_broken h, parse_of_broken (hfront.trans h), hskip]
    rfl
  | .whole m received wasted size =>
    -- the first frame is the same in both streams, and behind it they are shorter
    obtain ⟨hskip, hfront⟩ := front_skip_append more (by rw [h]; exact Front.noConfusion)
    obtain ⟨hin, hshorter⟩ := length_of_whole h
    rw [parse_of_whole h, parse_of_whole (hfront.trans h), hskip,
      List.drop_append_of_le_length hin,
      parse_append f l (bs.drop (f.magic.skip bs + size)) more, Parse.andThen_assoc]
    rfl
termination_by bs.length

/-! ## §5. The rest of a stream -/

/-- Bytes of which nothing can be said before more follow: a part of the magic, or a frame in
progress. -/
def Unfinished (f : Framing) (l : Wire.Layout) (bs : Bytes) : Prop :=
  Magic.Meets f.magic.toList bs ∧ front f l bs = .unfinished

theorem parse_of_rest (h : Unfinished f l bs) : parse f l bs = ⟨[], none, 0, 0, bs⟩ := by
  have hskip := Magic.skip_of_meets h.1
  have hfront : front f l (bs.drop (f.magic.skip bs)) = .unfinished := by
    rw [hskip]
    exact h.2
  rw [parse_of_unfinished hfront, hskip]
  rfl

theorem unfinished_nil (f : Framing) (l : Wire.Layout) : Unfinished f l [] :=
  ⟨.inr List.nil_prefix, front_of_short (by decide)⟩

/-- A stream that can be followed ends in an unfinished rest. -/
theorem unfinished_rest (f : Framing) (l : Wire.Layout) (bs : Bytes)
    (hok : (parse f l bs).error = none) : Unfinished f l (parse f l bs).rest := by
  match h : front f l (bs.drop (f.magic.skip bs)) with
  | .unfinished =>
    rw [parse_of_unfinished h]
    exact ⟨Magic.meets_drop_skip f.magic bs, h⟩
  | .broken error wasted =>
    rw [parse_of_broken h] at hok
    cases hok
  | .whole m received wasted size =>
    have hshorter := (length_of_whole h).2
    rw [parse_of_whole h] at hok ⊢
    exact unfinished_rest f l (bs.drop (f.magic.skip bs + size)) hok
termination_by bs.length

end Frame

end HeaderPeer
