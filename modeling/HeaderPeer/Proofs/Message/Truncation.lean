/-
  HeaderPeer.Proofs.Message.Truncation — what becomes of bytes that are cut off.

  A reader that decides by the bytes it takes cannot take a part of an encoding for a value, so a
  payload that was cut off is found out by the reader alone, at every place and for every wire type
  (`WireType.cut`).  Announcements are the exception, and by a single byte: the wish for transactions
  may be left out by peers, so an announcement without that byte is read as one with the wish.

  Main statements:
    * `WireType.cut`, `WireType.prefix_free` — no part of an encoding is read.
    * `Announcement.cut`, `Announcement.prefix_free` — the same of announcements, but for the last byte.
    * `truncated_never_read` — what is read depends on the bytes taken, and truncation is found out.
-/
import HeaderPeer.Proofs.Message.WireType
import HeaderPeer.Proofs.Tx.Marker

namespace HeaderPeer

open Wire

/-! ## §1. Parts of an encoding -/

theorem length_lt_of_part {front whole : Bytes} (hpart : front <+: whole) (hne : front ≠ whole) :
    front.length < whole.length :=
  Nat.lt_of_le_of_ne hpart.length_le fun hlen => hne (hpart.eq_of_length hlen)

namespace WireType

variable {l : Layout} {t : WireType} {v w : t.Value} {front : Bytes}

/-- **A part of an encoding is found to end too early.** -/
theorem cut (ht : t.hasAnnouncement = false) (h : t.Fits l v) (hpart : front <+: encode l v)
    (hne : front ≠ encode l v) :
    ∃ needed remaining,
      (decode l front : Except Error t.Value) = .error (.endOfData needed remaining) := by
  obtain ⟨needed, remaining, rest, hrun⟩ :=
    (selfDelimiting l t ht).cut (carries l t v h).run_whole hpart hne
  exact ⟨needed, remaining, decode_of_run_error hrun⟩

/-- **No encoding begins with another.** -/
theorem prefix_free (ht : t.hasAnnouncement = false) (hv : t.Fits l v) (hw : t.Fits l w)
    (hpart : encode l v <+: encode l w) : encode l v = encode l w :=
  (selfDelimiting l t ht).prefix_free (carries l t v hv).run_whole (carries l t w hw).run_whole hpart

end WireType

/-! ## §2. Announcements -/

namespace Announcement

variable {l : Layout} {a b : Announcement} {front : Bytes}

/-- The byte of the wish for transactions, if the version has one. -/
def wish (a : Announcement) : Bytes :=
  if Protocol.relayVersion ≤ a.version then [if a.relay then 1 else 0] else []

theorem selfDelimiting_core (l : Layout) : SelfDelimiting (readCore l) := by
  have haddress : SelfDelimiting (Codec.read l.withoutAddressTime : Get NetAddress) :=
    NetAddress.selfDelimiting _
  refine selfDelimiting_int32LE.bind fun version => (Services.selfDelimiting l).bind fun services =>
    selfDelimiting_int64LE.bind fun timestamp => haddress.bind fun receiver =>
    selfDelimiting_ite ?_ (selfDelimiting_pure _)
  exact haddress.bind fun sender => selfDelimiting_uint64LE.bind fun nonce =>
    selfDelimiting_text.bind fun userAgent => selfDelimiting_int32LE.map _

/-- An encoding is that of the core and the wish. -/
theorem encode_eq (l : Layout) (hsized : Countable (Bytes.ofText a.userAgent)) :
    ∃ bs, encode l a = bs ++ a.wish
      ∧ ∀ tail, (readCore l).run (bs ++ tail) = .ok a.core tail := by
  obtain ⟨bs, hwrites, hread⟩ := carries_core l hsized
  have hwish : (writeRelay a).Writes a.wish := by
    unfold writeRelay wish
    by_cases hnew : Protocol.relayVersion ≤ a.version
    · rw [if_pos hnew, if_pos hnew]
      exact Put.writes_fixed rfl
    · rw [if_neg hnew, if_neg hnew]
      exact Put.writes_nothing
  have hwhole : (Codec.write l a).Writes (bs ++ a.wish) := by
    show (Announcement.write l a).Writes _
    rw [write_eq]
    exact hwrites.append hwish
  exact ⟨bs, encode_of_writes hwhole, hread⟩

theorem length_wish_le (a : Announcement) : a.wish.length ≤ 1 := by
  unfold wish
  split <;> simp

theorem length_wish_eq_one_iff : a.wish.length = 1 ↔ Protocol.relayVersion ≤ a.version := by
  unfold wish
  split <;> simp [*]

/-- A part of a core and a byte at most is the core, or a part of it. -/
theorem core_or_part {core wish : Bytes} (hpart : front <+: core ++ wish)
    (hne : front ≠ core ++ wish) (hwish : wish.length ≤ 1) :
    (front = core ∧ wish.length = 1) ∨ (front <+: core ∧ front ≠ core) := by
  have hshorter := length_lt_of_part hpart hne
  rw [List.length_append] at hshorter
  -- one byte at most stands behind the core, and that one is missing
  have hcore : front <+: core :=
    List.prefix_of_prefix_length_le hpart (List.prefix_append core wish) (by omega)
  by_cases hsame : front = core
  · rw [hsame] at hshorter
    exact .inl ⟨hsame, by omega⟩
  · exact .inr ⟨hcore, hsame⟩

/-- A core with nothing behind it is read as it is, with the wish that the reader supplies. -/
theorem run_of_core (hcore : (readCore l).run front = .ok a.core []) :
    (read l).run front = .ok { a.arrived with relay := true } [] := by
  have hrelay : (readRelay a.core.version).run [] = .ok true [] := by
    unfold readRelay
    split <;> rfl
  rw [read_eq, run_bind hcore, run_bind hrelay]
  rfl

/-- **A part of an announcement is found to end too early, unless it lacks the wish alone.** -/
theorem cut (hsized : Countable (Bytes.ofText a.userAgent)) (hpart : front <+: encode l a)
    (hne : front ≠ encode l a) :
    if Protocol.relayVersion ≤ a.version ∧ front.length + 1 = (encode l a).length then
      decode l front = .ok { a.arrived with relay := true }
    else ∃ needed remaining,
      (decode l front : Except Error Announcement) = .error (.endOfData needed remaining) := by
  obtain ⟨core, hencode, hcore⟩ := encode_eq l hsized
  have hread := hcore []
  rw [List.append_nil] at hread
  rw [hencode] at hpart hne ⊢
  rw [List.length_append]
  obtain ⟨rfl, hone⟩ | ⟨hpart', hne'⟩ := core_or_part hpart hne (length_wish_le a)
  · rw [if_pos ⟨length_wish_eq_one_iff.1 hone, by rw [hone]⟩]
    exact decode_of_run_ok (run_of_core hread)
  · have hshorter := length_lt_of_part hpart' hne'
    rw [if_neg]
    · obtain ⟨needed, remaining, rest, hrun⟩ := (selfDelimiting_core l).cut hread hpart' hne'
      have hended : (read l).run front = .error (.endOfData needed remaining) rest := by
        rw [read_eq]
        exact run_bind_error hrun
      exact ⟨needed, remaining, decode_of_run_error hended⟩
    · rintro ⟨hnew, hlen⟩
      rw [length_wish_eq_one_iff.2 hnew] at hlen
      omega

/-- **No announcement begins with another.**  The one part that is read has a version under which
the wish would have to be there. -/
theorem prefix_free (ha : Countable (Bytes.ofText a.userAgent))
    (hb : Countable (Bytes.ofText b.userAgent)) (hpart : encode l a <+: encode l b) :
    encode l a = encode l b := by
  obtain ⟨core, hencode, hcore⟩ := encode_eq l ha
  obtain ⟨core', hencode', hcore'⟩ := encode_eq l hb
  have hread := hcore a.wish
  have hread' := hcore' []
  rw [List.append_nil] at hread'
  rw [hencode, hencode'] at hpart ⊢
  by_cases hsame : core ++ a.wish = core' ++ b.wish
  · exact hsame
  · exfalso
    obtain ⟨hfront, hone⟩ | ⟨hpart', hne'⟩ := core_or_part hpart hsame (length_wish_le b)
    · -- both cores are read from the same bytes, but one of them has a wish behind it
      rw [hfront, hread'] at hread
      injection hread with hcores hnone
      have hversion : a.version = b.version := by
        rw [← version_core a, ← hcores, version_core]
      rw [length_wish_eq_one_iff, ← hversion, ← length_wish_eq_one_iff, ← hnone] at hone
      cases hone
    · obtain ⟨needed, remaining, rest, hrun⟩ := (selfDelimiting_core l).cut hread' hpart' hne'
      rw [hread] at hrun
      cases hrun

end Announcement

/-! ## §3. All wire types -/

/-- **What is read depends on the bytes taken alone, and truncation is found out.**  For every wire
type without announcements, a value that is read is read again from the bytes taken whatever follows
them, and so is a refusal; every part of an encoding is found to end too early, so no encoding begins
with another.  Of an announcement the part that lacks the wish alone is read, with the wish. -/
theorem truncated_never_read (l : Layout) :
    (∀ t : WireType, t.hasAnnouncement = false →
        (∀ (data : Bytes) (a : t.Value) (rest : Bytes), (Codec.read l).run data = .ok a rest →
          ∃ taken, data = taken ++ rest ∧ ∀ more, (Codec.read l).run (taken ++ more) = .ok a more)
        ∧ (∀ (data : Bytes) (e : Error) (rest : Bytes),
          (Codec.read l : Get t.Value).run data = .error e rest →
          (∀ needed remaining, e ≠ .endOfData needed remaining) →
          ∃ taken, data = taken ++ rest
            ∧ ∀ more, (Codec.read l : Get t.Value).run (taken ++ more) = .error e more)
        ∧ (∀ (v : t.Value) (front : Bytes), t.Fits l v → front <+: encode l v →
          front ≠ encode l v → ∃ needed remaining,
            (decode l front : Except Error t.Value) = .error (.endOfData needed remaining))
        ∧ ∀ v w : t.Value, t.Fits l v → t.Fits l w → encode l v <+: encode l w →
          encode l v = encode l w)
      ∧ (∀ (a : Announcement) (front : Bytes), Countable (Bytes.ofText a.userAgent) →
        front <+: encode l a → front ≠ encode l a →
          if Protocol.relayVersion ≤ a.version ∧ front.length + 1 = (encode l a).length then
            decode l front = .ok { a.arrived with relay := true }
          else ∃ needed remaining,
            (decode l front : Except Error Announcement) = .error (.endOfData needed remaining))
      ∧ ∀ a b : Announcement, Countable (Bytes.ofText a.userAgent) →
        Countable (Bytes.ofText b.userAgent) → encode l a <+: encode l b →
          encode l a = encode l b := by
  refine ⟨fun t ht => ⟨?_, ?_, ?_, ?_⟩, ?_, ?_⟩
  · intro data a rest hrun
    exact (WireType.selfDelimiting l t ht).of_ok hrun
  · intro data e rest hrun hend
    refine (WireType.selfDelimiting l t ht).of_error hrun ?_
    cases e with
    | endOfData needed remaining => exact absurd rfl (hend needed remaining)
    | _ => exact id
  · intro v front h hpart hne
    exact WireType.cut ht h hpart hne
  · intro v w hv hw hpart
    exact WireType.prefix_free ht hv hw hpart
  · intro a front h hpart hne
    exact Announcement.cut h hpart hne
  · intro a b ha hb hpart
    exact Announcement.prefix_free ha hb hpart

/-- An announcement of the newest version, by a node that does not want to hear of transactions. -/
def quietNode : Announcement :=
  { version := Protocol.currentVersion, services := .none, timestamp := 0, receiver := .unspecified
    sender := .unspecified, nonce := 5, userAgent := "", startHeight := 0, relay := false }

/-- A transaction without its last two bytes is not read, and an announcement without its last byte
is read as that of a node that wants to hear of transactions. -/
theorem spend_and_quietNode_cut :
    (∃ needed remaining, (decode .full ((encode .full Tx.spend).take 68) : Except Error Tx)
        = .error (.endOfData needed remaining))
      ∧ decode .full ((encode .full quietNode).take 85)
        = .ok { quietNode.arrived with relay := true } := by
  obtain ⟨hplain, hannouncement, -⟩ := truncated_never_read .full
  constructor
  · have hfits : WireType.tx.Fits .full Tx.spend :=
      ⟨Tx.sized_spend, fun _ => .inl (List.cons_ne_nil _ _)⟩
    exact (hplain .tx rfl).2.2.1 Tx.spend _ hfits (List.take_prefix _ _) (by decide)
  · have hsized : Countable (Bytes.ofText quietNode.userAgent) := countable_nil
    have hcut := hannouncement quietNode _ hsized (List.take_prefix 85 _) (by decide)
    rw [if_pos (by decide)] at hcut
    exact hcut

end HeaderPeer
