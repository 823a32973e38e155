/-
  HeaderPeer.Proofs.Connection.Handshake — two ends come to an agreement.

  The dialer opens with its announcement.  The listener takes note of it, and answers with its own
  announcement and an acknowledgement; the dialer takes note of that one and acknowledges it.  So
  there is a script of what is said at each end.  Hearing a part of the one makes a party say a part
  of the other, so nothing else is ever said, however the links cut and delay it.

  Main statements:
    * `Pair.Scripted.deliver` — a delivery keeps both parties to the script.
    * `handshake_agrees` — whatever the links do, both ends agree.
    * `handshake_settles` — and the links can be brought to rest at any time.
-/
import HeaderPeer.Proofs.Connection.Party

namespace HeaderPeer

open HeaderPeer.Frame

/-! ## §1. Two parties -/

/-- A dialer and a listener that can come to terms: they write the same kind of frames, are two
different nodes, are not too old for each other, and announce themselves in few enough bytes for
both. -/
structure Compatible (d l : Party) (receiver : NetAddress) (height : Nat) : Prop where
  magic : d.endpoint.framing.magic = l.endpoint.framing.magic
  hasher : d.endpoint.framing.hasher = l.endpoint.framing.hasher
  nonce : d.identity.nonce ≠ l.identity.nonce
  dialerVersion : Protocol.oldestVersion ≤ d.identity.version
  listenerVersion : Protocol.oldestVersion ≤ l.identity.version
  greetingSent : (d.greeting receiver height).payload.length ≤ d.endpoint.framing.maxPayload.toNat
  greetingHeard : (d.greeting receiver height).payload.length
    ≤ l.endpoint.framing.maxPayload.toNat
  replySent : l.reply.payload.length ≤ l.endpoint.framing.maxPayload.toNat
  replyHeard : l.reply.payload.length ≤ d.endpoint.framing.maxPayload.toNat

namespace Pair

/-- Two parties when the dialer has sent its greeting and nothing has come in anywhere.  The dialer
names `receiver` as the one it speaks to, and its best header is at `height`. -/
def start (d l : Party) (receiver : NetAddress) (height : Nat) : Pair :=
  let greeting := Message.version (d.greeting receiver height)
  let (r, s, error) := d.endpoint.greet (.ofPeer (.fresh d.name true))
    { worker := d.worker, written := .empty } (some greeting)
  { dialer := { receiver := r, service := s, error, heard := 0 }
    listener := {
      receiver := .ofPeer (.fresh l.name false)
      service := { worker := l.worker, written := .empty }
      error := none
      heard := 0 } }

end Pair

section

variable {d l : Party} {receiver : NetAddress} {height : Nat} {x : Pair}

theorem Compatible.listener_welcomes (h : Compatible d l receiver height) :
    l.Welcomes false (d.greeting receiver height) where
  nonce := h.nonce
  version := h.dialerVersion
  payload := h.greetingHeard
  sender := rfl
  reply _ := h.replySent

theorem Compatible.dialer_welcomes (h : Compatible d l receiver height) :
    d.Welcomes true l.reply where
  nonce := h.nonce.symm
  version := h.listenerVersion
  payload := h.replyHeard
  sender := rfl
  reply hout := nomatch hout

/-- Frames of the two parties look alike. -/
theorem Compatible.versionFrame_eq (h : Compatible d l receiver height) (a : Announcement) :
    d.versionFrame a = l.versionFrame a := by
  simp only [Party.versionFrame, ofPayload, h.magic, h.hasher]

theorem Compatible.verackFrame_eq (h : Compatible d l receiver height) :
    d.verackFrame = l.verackFrame := by
  simp only [Party.verackFrame, ofPayload, h.magic, h.hasher]

/-! ## §2. The script -/

namespace Party

/-- What the dialer knows about the listener when the greeting has been sent. -/
def dialed (d : Party) (receiver : NetAddress) (height : Nat) : Peer :=
  (Peer.fresh d.name true).send (d.versionFrame (d.greeting receiver height)).length

/-- What the dialer has written by then. -/
def greeted (d : Party) (receiver : NetAddress) (height : Nat) : Service where
  worker := d.worker
  written := Wire.Output.empty.append (d.versionFrame (d.greeting receiver height))

/-- What the listener knows about the dialer by then. -/
def accepted (l : Party) : Peer := .fresh l.name false

/-- The listener has written nothing by then. -/
def silent (l : Party) : Service where
  worker := l.worker
  written := .empty

end Party

namespace Pair

/-- Each party has followed what it has heard since the greeting was sent. -/
def Underway (d l : Party) (receiver : NetAddress) (height : Nat) (x : Pair) : Prop :=
  x.Consistent d.endpoint l.endpoint (d.dialed receiver height) l.accepted
    (d.greeted receiver height) l.silent

theorem start_eq (h : Compatible d l receiver height) :
    start d l receiver height =
      { dialer := ⟨.ofPeer (d.dialed receiver height), d.greeted receiver height, none, 0⟩
        listener := ⟨.ofPeer l.accepted, l.silent, none, 0⟩ } := by
  have hencode : d.endpoint.encodeAll (Peer.fresh d.name true).layout
      (some (Message.version (d.greeting receiver height))).toList
        = .ok (d.versionFrame (d.greeting receiver height)) := by
    rw [Option.toList_some, Endpoint.encodeAll_cons, Party.encode_version h.greetingSent,
      Endpoint.encodeAll_nil]
    simp [Except.map]
  rw [start, Endpoint.greet_ofPeer, hencode]
  rfl

theorem underway_start (h : Compatible d l receiver height) :
    (start d l receiver height).Underway d l receiver height := by
  rw [start_eq h]
  exact ⟨⟨Receiver.reaches_ofPeer _ _ _ _ _, rfl⟩, ⟨Receiver.reaches_ofPeer _ _ _ _ _, rfl⟩⟩

/-- The listener that hears nothing but a part of the script is in one of its phases. -/
theorem Underway.listener_phase (hx : x.Underway d l receiver height)
    (h : Compatible d l receiver height)
    (hsaid : x.dialer.said <+: l.versionFrame (d.greeting receiver height) ++ l.verackFrame) :
    x.listener.error = none ∧ l.Phase (d.greeting receiver height) l.accepted l.silent
      x.listener.peer x.listener.said (x.dialer.said.take x.listener.heard) :=
  Party.phase_of_follows h.listener_welcomes rfl rfl hx.listener
    ((List.take_prefix _ _).trans hsaid)

theorem Underway.dialer_phase (hx : x.Underway d l receiver height)
    (h : Compatible d l receiver height)
    (hsaid : x.listener.said <+: d.versionFrame l.reply ++ d.verackFrame) :
    x.dialer.error = none ∧ d.Phase l.reply (d.dialed receiver height) (d.greeted receiver height)
      x.dialer.peer x.dialer.said (x.listener.said.take x.dialer.heard) :=
  Party.phase_of_follows h.dialer_welcomes rfl rfl hx.dialer
    ((List.take_prefix _ _).trans hsaid)

/-- Two parties that have said nothing but what belongs to the handshake. -/
structure Scripted (d l : Party) (receiver : NetAddress) (height : Nat) (x : Pair) : Prop where
  underway : x.Underway d l receiver height
  dialer : x.dialer.said <+: l.versionFrame (d.greeting receiver height) ++ l.verackFrame
  listener : x.listener.said <+: d.versionFrame l.reply ++ d.verackFrame

theorem said_greeted (h : Compatible d l receiver height) :
    (d.greeted receiver height).written.toBytes = l.versionFrame (d.greeting receiver height) := by
  rw [Party.greeted, Wire.Output.toBytes_append, Wire.Output.toBytes_empty, List.nil_append,
    h.versionFrame_eq]

theorem scripted_start (h : Compatible d l receiver height) :
    (start d l receiver height).Scripted d l receiver height := by
  refine ⟨underway_start h, ?_, ?_⟩
  · rw [start_eq h]
    show (d.greeted receiver height).written.toBytes <+: _
    rw [said_greeted h]
    exact List.prefix_append _ _
  · rw [start_eq h]
    exact List.nil_prefix

/-- **Hearing a part of the script, a party says a part of it**, so nothing else is ever said. -/
theorem Scripted.deliver (h : Compatible d l receiver height)
    (hx : x.Scripted d l receiver height) (delivery : Delivery) :
    (x.deliver d.endpoint l.endpoint delivery).Scripted d l receiver height := by
  have hmore : (x.deliver d.endpoint l.endpoint delivery).Underway d l receiver height :=
    hx.underway.deliver delivery
  cases delivery with
  | toListener bytes =>
    have hsaid := (hmore.listener_phase h hx.dialer).2.said_within
    refine ⟨hmore, hx.dialer, ?_⟩
    rw [h.versionFrame_eq, h.verackFrame_eq]
    exact hsaid
  | toDialer bytes =>
    have hsaid := (hmore.dialer_phase h hx.listener).2.said_within
    refine ⟨hmore, ?_, hx.listener⟩
    rw [← said_greeted h, ← h.verackFrame_eq]
    exact hsaid

theorem Scripted.run (h : Compatible d l receiver height) (hx : x.Scripted d l receiver height)
    (ds : List Delivery) : (x.run d.endpoint l.endpoint ds).Scripted d l receiver height := by
  induction ds generalizing x with
  | nil => exact hx
  | cons delivery ds ih => exact ih (hx.deliver h delivery)

/-! ## §3. Agreement -/

/-- Whatever the phases, neither party has failed, and each knows what it is to know. -/
theorem Scripted.sound (h : Compatible d l receiver height) (hx : x.Scripted d l receiver height) :
    x.dialer.Sound (min l.identity.version d.identity.version) l.identity l.height
      ∧ x.listener.Sound (min d.identity.version l.identity.version) d.identity height := by
  obtain ⟨hdialer, hphase⟩ := hx.underway.dialer_phase h hx.listener
  obtain ⟨hlistener, hphase'⟩ := hx.underway.listener_phase h hx.dialer
  exact ⟨hphase.sound ⟨rfl, rfl, rfl⟩ hdialer (PeerInfo.tells_onWire _ _ _ _),
    hphase'.sound ⟨rfl, rfl, rfl⟩ hlistener (PeerInfo.tells_onWire _ _ _ _)⟩

/-- The dialer has said its greeting at least, and all it has to say once it has heard the answer. -/
theorem Scripted.dialer_said (h : Compatible d l receiver height)
    (hx : x.Scripted d l receiver height) :
    (l.versionFrame (d.greeting receiver height)).length ≤ x.dialer.said.length
      ∧ ((d.versionFrame l.reply).length ≤ (x.listener.said.take x.dialer.heard).length →
        x.dialer.said = l.versionFrame (d.greeting receiver height) ++ l.verackFrame) := by
  have hphase := (hx.underway.dialer_phase h hx.listener).2
  rcases hphase.said_cases with ⟨hlt, hsaid⟩ | hsaid
  · rw [said_greeted h] at hsaid
    exact ⟨hsaid ▸ Nat.le_refl _, fun hle => absurd hlt (Nat.not_lt.2 hle)⟩
  · have hall : x.dialer.said
        = l.versionFrame (d.greeting receiver height) ++ l.verackFrame := by
      rw [← said_greeted h, ← h.verackFrame_eq]
      exact hsaid
    refine ⟨?_, fun _ => hall⟩
    rw [hall, List.length_append]
    omega

/-- The listener has said all it has to say once it has heard the greeting. -/
theorem Scripted.listener_said (h : Compatible d l receiver height)
    (hx : x.Scripted d l receiver height)
    (hle : (l.versionFrame (d.greeting receiver height)).length
      ≤ (x.dialer.said.take x.listener.heard).length) :
    x.listener.said = d.versionFrame l.reply ++ d.verackFrame := by
  have hphase := (hx.underway.listener_phase h hx.dialer).2
  rcases hphase.said_cases with ⟨hlt, -⟩ | hsaid
  · exact absurd hlt (Nat.not_lt.2 hle)
  · rw [h.versionFrame_eq, h.verackFrame_eq]
    exact hsaid

/-- Once nothing is on its way to the listener, it has said all it has to say. -/
theorem Scripted.listener_done (h : Compatible d l receiver height)
    (hx : x.Scripted d l receiver height) (hquiet : x.toListener = []) :
    x.listener.said = d.versionFrame l.reply ++ d.verackFrame := by
  refine hx.listener_said h ?_
  rw [take_of_toListener hquiet]
  exact (hx.dialer_said h).1

/-- If nothing is on its way to the dialer either, that has said all it has to say as well. -/
theorem Scripted.dialer_done (h : Compatible d l receiver height)
    (hx : x.Scripted d l receiver height)
    (hsaid : x.listener.said = d.versionFrame l.reply ++ d.verackFrame)
    (hquiet : x.toDialer = []) :
    x.dialer.said = l.versionFrame (d.greeting receiver height) ++ l.verackFrame := by
  refine (hx.dialer_said h).2 ?_
  rw [take_of_toDialer hquiet, hsaid, List.length_append]
  omega

/-- **When nothing is on its way, both have heard both messages** of the other one. -/
theorem Scripted.settled (h : Compatible d l receiver height)
    (hx : x.Scripted d l receiver height) (hl : x.toListener = []) (hd : x.toDialer = []) :
    x.dialer.Settled (min l.identity.version d.identity.version) l.identity l.height
      ∧ x.listener.Settled (min d.identity.version l.identity.version) d.identity height := by
  have hlistener := hx.listener_done h hl
  have hdialer := hx.dialer_done h hlistener hd
  have hphase := (hx.underway.dialer_phase h hx.listener).2
  have hphase' := (hx.underway.listener_phase h hx.dialer).2
  rw [take_of_toDialer hd] at hphase
  rw [take_of_toListener hl] at hphase'
  exact ⟨hphase.settles hlistener (PeerInfo.tells_onWire _ _ _ _),
    hphase'.settles hdialer (PeerInfo.tells_onWire _ _ _ _)⟩

end Pair

/-- The lower of two versions is the same from both ends. -/
theorem min_version_comm (v w : Int32) : min v w = min w v := by
  show (if v ≤ w then v else w) = if w ≤ v then w else v
  by_cases hle : v ≤ w
  · by_cases hge : w ≤ v
    · rw [if_pos hle, if_pos hge, Int32.le_antisymm hle hge]
    · rw [if_pos hle, if_neg hge]
  · rw [if_neg hle, if_pos (Int32.le_of_lt (Int32.not_le.1 hle))]

/-- **The links can be brought to rest at any time**: three deliveries of all that is on its way are
enough. -/
theorem handshake_settles (h : Compatible d l receiver height) (ds : List Delivery) :
    ∃ more, let x := (Pair.start d l receiver height).run d.endpoint l.endpoint (ds ++ more)
      x.toListener = [] ∧ x.toDialer = [] := by
  -- the greeting comes in, then the answer, then the acknowledgement of the dialer
  let x := (Pair.start d l receiver height).run d.endpoint l.endpoint ds
  let x₁ := x.deliver d.endpoint l.endpoint (.toListener x.toListener.length)
  let x₂ := x₁.deliver d.endpoint l.endpoint (.toDialer x₁.toDialer.length)
  let x₃ := x₂.deliver d.endpoint l.endpoint (.toListener x₂.toListener.length)
  have hx : x.Scripted d l receiver height := (Pair.scripted_start h).run h ds
  have hx₁ : x₁.Scripted d l receiver height := hx.deliver h _
  have hx₂ : x₂.Scripted d l receiver height := hx₁.deliver h _
  have hx₃ : x₃.Scripted d l receiver height := hx₂.deliver h _
  have hquiet₁ : x₁.toListener = [] := Pair.toListener_deliver (hx.sound h).2.error
  have hquiet₂ : x₂.toDialer = [] := Pair.toDialer_deliver (hx₁.sound h).1.error
  have hquiet₃ : x₃.toListener = [] := Pair.toListener_deliver (hx₂.sound h).2.error
  -- the last delivery makes the listener say nothing more
  have hsaid : x₃.listener.said = x₁.listener.said :=
    (hx₃.listener_done h hquiet₃).trans (hx₁.listener_done h hquiet₁).symm
  refine ⟨[.toListener x.toListener.length, .toDialer x₁.toDialer.length,
    .toListener x₂.toListener.length], ?_⟩
  have hrun : (Pair.start d l receiver height).run d.endpoint l.endpoint
      (ds ++ [.toListener x.toListener.length, .toDialer x₁.toDialer.length,
        .toListener x₂.toListener.length]) = x₃ := by
    rw [Pair.run, List.foldl_append]
    rfl
  rw [hrun]
  refine ⟨hquiet₃, ?_⟩
  show x₃.listener.said.drop x₂.dialer.heard = []
  rw [hsaid]
  exact hquiet₂

/-- **Whatever the links do, two parties agree.**  Neither fails; each uses the first version of all
until it has heard the other's announcement, and the lower of the two versions from then on; neither
takes the handshake for complete before it has recorded the other's announcement; and when nothing
is on its way, both have completed it and know each other. -/
theorem handshake_agrees (h : Compatible d l receiver height) (ds : List Delivery) :
    let x := (Pair.start d l receiver height).run d.endpoint l.endpoint ds
    let agreed := min d.identity.version l.identity.version
    x.dialer.Sound agreed l.identity l.height ∧ x.listener.Sound agreed d.identity height
      ∧ (x.toListener = [] → x.toDialer = [] →
        x.dialer.Settled agreed l.identity l.height
          ∧ x.listener.Settled agreed d.identity height) := by
  intro x agreed
  have hx : x.Scripted d l receiver height := (Pair.scripted_start h).run h ds
  have hagreed : min l.identity.version d.identity.version = agreed := min_version_comm _ _
  obtain ⟨hdialer, hlistener⟩ := hx.sound h
  rw [hagreed] at hdialer
  refine ⟨hdialer, hlistener, fun hl hd => ?_⟩
  obtain ⟨hdialer, hlistener⟩ := hx.settled h hl hd
  rw [hagreed] at hdialer
  exact ⟨hdialer, hlistener⟩

end

/-! ### Two nodes of different versions -/

/-- A node that speaks the newest version, and one that cannot say whether it wants transactions. -/
def newcomer : Party :=
  (Node.create .usual .regtest 7).party 1700000000 { id := 1, remote := "127.0.0.1:18444" }
def veteran : Party :=
  (Node.create { Settings.usual with version := 60000 } .regtest 8).party 1700000007
    { id := 4, remote := "127.0.0.1:51200" }

theorem newcomer_veteran_compatible : Compatible newcomer veteran .unspecified 5 where
  magic := rfl
  hasher := rfl
  nonce := by decide
  dialerVersion := by decide
  listenerVersion := by decide
  greetingSent := by decide
  greetingHeard := by decide
  replySent := by decide
  replyHeard := by decide

/-- From the middle of the greeting on, the links can bring the two nodes to the older version. -/
theorem newcomer_veteran_agree :
    Compatible newcomer veteran .unspecified 5
      ∧ ∃ ds,
        let greeted := Pair.start newcomer veteran .unspecified 5
        let x := greeted.run newcomer.endpoint veteran.endpoint (.toListener 30 :: ds)
        x.dialer.Settled 60000 veteran.identity 0 ∧ x.listener.Settled 60000 newcomer.identity 5 := by
  refine ⟨newcomer_veteran_compatible, ?_⟩
  obtain ⟨ds, hl, hd⟩ := handshake_settles newcomer_veteran_compatible [.toListener 30]
  exact ⟨ds, (handshake_agrees newcomer_veteran_compatible (.toListener 30 :: ds)).2.2 hl hd⟩

end HeaderPeer
