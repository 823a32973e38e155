/-
  HeaderPeer.Proofs.Message.Announcement — addresses and announcements come back from the wire.

  An announcement is a core and, from some version on, one more byte: the wish for transactions.  The
  core says where it ends.  The wish does not: a reader that finds no byte there supplies one, so a
  reader of announcements is the one reader that asks whether there is anything left.

  Main statements:
    * `write_eq`, `read_eq` — an announcement is its core and the wish.
    * `carries_core`, `carries_arrived` — what comes back of each, for every announcement.
    * `carries`, `yields` — what comes back unchanged, and that nothing else is read.
-/
import HeaderPeer.Proofs.Tx.RoundTrip

namespace HeaderPeer

open Wire

/-! ## §1. Addresses -/

theorem Services.carries (l : Layout) (s : Services) :
    Carries (Codec.write l s) (Codec.read l) s :=
  (carries_uint64LE s.bits).finish rfl

namespace NetAddress

/-- An address as it comes out at the other end: without its time where the layout has none. -/
def onWire (l : Layout) (a : NetAddress) : NetAddress :=
  { a with time := if hasTime l then a.time else 0 }

theorem carries_onWire (l : Layout) (a : NetAddress) :
    Carries (NetAddress.write l a) (NetAddress.read l) (a.onWire l) := by
  have hip : a.ip.toNat < 256 ^ 16 := a.ip.isLt
  have hvalue : BitVec.ofNat 128 a.ip.toNat = a.ip := by
    rw [BitVec.ofNat_toNat, BitVec.setWidth_eq]
  unfold NetAddress.write NetAddress.read onWire
  simp only [Put.append_assoc]
  -- what stands behind the time is the same under all layouts
  have hrest : ∀ time, Carries (Codec.write l a.services ++ (.fixed 16 (Bytes.ofNatBE 16 a.ip.toNat)
          ++ .uint16BE a.portNumber))
        (do
          let services ← Codec.read l
          let ip := BitVec.ofNat 128 (← Get.natBE 16)
          let portNumber ← Get.uint16BE
          return ({ time, services, ip, portNumber } : NetAddress)) { a with time := time } := by
    intro time
    refine (Services.carries l a.services).bind ?_
    refine (carries_natBE 16 hip).bind ?_
    refine (carries_uint16BE a.portNumber).finish ?_
    rw [hvalue]
  by_cases htime : hasTime l = true
  · rw [if_pos htime, if_pos htime, if_pos htime]
    exact (carries_uint32LE a.time).bind (hrest a.time)
  · rw [if_neg htime, if_neg htime, if_neg htime]
    exact (carries_pure 0).bind (hrest 0)

/-- An address comes back if it has no time where the layout has none. -/
theorem carries (l : Layout) {a : NetAddress} (h : hasTime l = false → a.time = 0) :
    Carries (NetAddress.write l a) (NetAddress.read l) a := by
  have hsame : a.onWire l = a := by
    unfold onWire
    by_cases htime : hasTime l = true
    · rw [if_pos htime]
    · rw [if_neg htime, ← h (Bool.eq_false_iff.2 htime)]
  have hcarries := carries_onWire l a
  rw [hsame] at hcarries
  exact hcarries

theorem yields (l : Layout) :
    Yields (NetAddress.read l) fun a => hasTime l = false → a.time = 0 := by
  refine yields_ite (fun htime => ?_) fun _ => ?_
  · refine yields_bind fun time => yields_bind fun services => yields_bind fun ip =>
      yields_bind fun portNumber => yields_pure fun hnone => ?_
    rw [htime] at hnone
    cases hnone
  · have hzero : Yields (pure 0 : Get UInt32) fun time => time = 0 := yields_pure rfl
    exact hzero.bind fun time htime => yields_bind fun services => yields_bind fun ip =>
      yields_bind fun portNumber => yields_pure fun _ => htime

end NetAddress

namespace Announcement

/-! ## §2. The core of an announcement -/

/-- All but the wish for transactions, as it comes out at the other end: the addresses without their
times, and defaults for what the version leaves out. -/
def core (a : Announcement) : Announcement :=
  if Protocol.senderVersion ≤ a.version then
    { a with
      receiver := { a.receiver with time := 0 }
      sender := { a.sender with time := 0 }
      relay := true }
  else
    { version := a.version, services := a.services, timestamp := a.timestamp
      receiver := { a.receiver with time := 0 }, sender := .unspecified, nonce := 0
      userAgent := "", startHeight := 0, relay := true }

/-- An announcement as it comes out at the other end. -/
def arrived (a : Announcement) : Announcement :=
  { a.core with relay := if Protocol.relayVersion ≤ a.version then a.relay else true }

def writeCore (l : Layout) (a : Announcement) : Put :=
  .int32LE a.version ++ Codec.write l a.services ++ .int64LE a.timestamp
    ++ Codec.write l.withoutAddressTime a.receiver
    ++ (if Protocol.senderVersion ≤ a.version then
          Codec.write l.withoutAddressTime a.sender ++ .uint64LE a.nonce ++ .text a.userAgent
            ++ .int32LE a.startHeight
        else .nothing)

def writeRelay (a : Announcement) : Put :=
  if Protocol.relayVersion ≤ a.version then .bool a.relay else .nothing

/-- Reads all but the wish for transactions. -/
def readCore (l : Layout) : Get Announcement := do
  let version ← Get.int32LE
  let services ← Codec.read l
  let timestamp ← Get.int64LE
  let receiver ← Codec.read l.withoutAddressTime
  if Protocol.senderVersion ≤ version then
    let sender ← Codec.read l.withoutAddressTime
    let nonce ← Get.uint64LE
    let userAgent ← Get.text
    let startHeight ← Get.int32LE
    return {
      version, services, timestamp, receiver, sender, nonce, userAgent, startHeight
      relay := true }
  else
    return {
      version, services, timestamp, receiver, sender := .unspecified, nonce := 0
      userAgent := "", startHeight := 0, relay := true }

/-- The wish for transactions came later than the sender. -/
theorem version_lt_relayVersion {version : Int32} (h : version < Protocol.senderVersion) :
    version < Protocol.relayVersion :=
  Int32.lt_of_lt_of_le h (by decide)

theorem version_core (a : Announcement) : a.core.version = a.version := by
  unfold core
  split <;> rfl

/-- An announcement is written as its core and the wish. -/
theorem write_eq (l : Layout) (a : Announcement) : write l a = writeCore l a ++ writeRelay a := by
  unfold write writeCore writeRelay
  dsimp only
  by_cases hnew : Protocol.senderVersion ≤ a.version
  · rw [if_pos hnew, if_pos hnew]
    simp only [Put.append_assoc]
  · have hold := version_lt_relayVersion (Int32.not_le.1 hnew)
    rw [if_neg hnew, if_neg hnew, if_neg (Int32.not_le.2 hold), Put.append_nothing,
      Put.append_nothing]

/-- An announcement is read as its core and the wish. -/
theorem read_eq (l : Layout) :
    read l = do
      let a ← readCore l
      let relay ← readRelay a.version
      return { a with relay } := by
  unfold read readCore readRest
  simp only [bind_assoc]
  refine bind_congr fun version => bind_congr fun services => bind_congr fun timestamp =>
    bind_congr fun receiver => ?_
  by_cases hnew : Protocol.senderVersion ≤ version
  · rw [if_pos hnew, if_pos hnew]
    simp only [bind_assoc, pure_bind]
  · have hold := version_lt_relayVersion (Int32.not_le.1 hnew)
    rw [if_neg hnew, if_neg hnew, pure_bind, readRelay, if_neg (Int32.not_le.2 hold), pure_bind]

/-! ## §3. What comes back -/

/-- **The core of every announcement comes back.** -/
theorem carries_core (l : Layout) {a : Announcement} (hsized : Countable (Bytes.ofText a.userAgent)) :
    Carries (writeCore l a) (readCore l) a.core := by
  have hreceiver := NetAddress.carries_onWire l.withoutAddressTime a.receiver
  have hsender := NetAddress.carries_onWire l.withoutAddressTime a.sender
  unfold writeCore readCore core
  simp only [Put.append_assoc]
  refine (carries_int32LE a.version).bind ?_
  refine (Services.carries l a.services).bind ?_
  refine (carries_int64LE a.timestamp).bind ?_
  refine hreceiver.bind ?_
  by_cases hnew : Protocol.senderVersion ≤ a.version
  · rw [if_pos hnew, if_pos hnew, if_pos hnew]
    refine hsender.bind ?_
    refine (carries_uint64LE a.nonce).bind ?_
    refine (carries_text hsized).bind ?_
    exact (carries_int32LE a.startHeight).finish rfl
  · rw [if_neg hnew, if_neg hnew, if_neg hnew]
    exact carries_pure _

/-- The wish for transactions comes back, or the one that a reader supplies. -/
theorem carries_relay (a : Announcement) :
    Carries (writeRelay a) (readRelay a.version)
      (if Protocol.relayVersion ≤ a.version then a.relay else true) := by
  unfold writeRelay readRelay
  by_cases hnew : Protocol.relayVersion ≤ a.version
  · rw [if_pos hnew, if_pos hnew, if_pos hnew]
    exact (carries_bool a.relay).not_atEnd Nat.one_ne_zero (pure true)
  · rw [if_neg hnew, if_neg hnew, if_neg hnew]
    exact carries_pure true

/-- **Every announcement comes back as it arrives.** -/
theorem carries_arrived (l : Layout) {a : Announcement}
    (hsized : Countable (Bytes.ofText a.userAgent)) :
    Carries (Announcement.write l a) (Announcement.read l) a.arrived := by
  -- the wish is read under the version that the core brought
  have hrelay : Carries (writeRelay a) (readRelay a.core.version)
      (if Protocol.relayVersion ≤ a.version then a.relay else true) := by
    rw [version_core]
    exact carries_relay a
  rw [write_eq, read_eq]
  exact (carries_core l hsized).bind (hrelay.finish rfl)

/-- What is left out is what a reader supplies, so nothing is lost. -/
theorem arrived_of_representable {a : Announcement} (h : a.Representable) : a.arrived = a := by
  have hreceiver : { a.receiver with time := 0 } = a.receiver := by rw [← h.receiver]
  have hsender : { a.sender with time := 0 } = a.sender := by rw [← h.sender]
  have hrelay : (if Protocol.relayVersion ≤ a.version then a.relay else true) = a.relay := by
    by_cases hnew : Protocol.relayVersion ≤ a.version
    · rw [if_pos hnew]
    · rw [if_neg hnew, h.relay (Int32.not_le.1 hnew)]
  unfold arrived core
  by_cases hnew : Protocol.senderVersion ≤ a.version
  · rw [if_pos hnew, hreceiver, hsender, hrelay]
  · obtain ⟨hsender', hnonce, hagent, hheight⟩ := h.old (Int32.not_le.1 hnew)
    rw [if_neg hnew, hreceiver, hrelay, ← hsender', ← hnonce, ← hagent, ← hheight]

theorem carries (l : Layout) {a : Announcement} (h : a.Representable)
    (hsized : Countable (Bytes.ofText a.userAgent)) :
    Carries (Announcement.write l a) (Announcement.read l) a := by
  have hcarries := carries_arrived l hsized
  rw [arrived_of_representable h] at hcarries
  exact hcarries

theorem yields_relay (version : Int32) :
    Yields (readRelay version) fun relay => version < Protocol.relayVersion → relay = true := by
  refine yields_ite (fun hnew => ?_) fun _ => yields_pure fun _ => rfl
  intro data relay rest _ hold
  exact absurd hnew (Int32.not_le.2 hold)

theorem yields (l : Layout) :
    Yields (Announcement.read l) fun a =>
      a.Representable ∧ Countable (Bytes.ofText a.userAgent) := by
  have haddress : Yields (Codec.read l.withoutAddressTime : Get NetAddress) fun a => a.time = 0 :=
    fun data a rest h => NetAddress.yields _ data a rest h rfl
  refine yields_bind fun version => yields_bind fun services => yields_bind fun timestamp =>
    haddress.bind fun receiver hreceiver => yields_ite (fun hnew => ?_) fun hold => ?_
  · refine haddress.bind fun sender hsender => yields_bind fun nonce =>
      yields_text.bind fun userAgent hagent => yields_bind fun startHeight => ?_
    refine (yields_relay version).map fun relay hrelay => ?_
    refine ⟨⟨hreceiver, hsender, ?_, hrelay⟩, hagent⟩
    exact fun hold => absurd hnew (Int32.not_le.2 hold)
  · refine yields_pure ⟨⟨hreceiver, rfl, fun _ => ⟨rfl, rfl, rfl, rfl⟩, fun _ => rfl⟩, ?_⟩
    exact countable_nil

end Announcement

end HeaderPeer
