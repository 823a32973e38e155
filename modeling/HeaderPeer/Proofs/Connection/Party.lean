/-
  HeaderPeer.Proofs.Connection.Party — one end of a handshake.

  Each end of a handshake hears an announcement and then an acknowledgement, and it hears nothing
  else.  The announcement makes it go over to the version agreed on, in the middle of the exchange;
  that does no harm, since nothing of an announcement and nothing of an acknowledgement depends on
  the version in force.

  Main statements:
    * `Party.follow_script` — what an end does on whatever has come in of its two messages.
    * `Party.phase_of_follows` — an end that hears nothing else does not fail, and goes through three
      phases.
-/
import HeaderPeer.Proofs.Connection.Pair
import HeaderPeer.Proofs.Message.OnWire

namespace HeaderPeer

open HeaderPeer.Frame

/-! ## §1. Parties -/

/-- A node at one end of a connection, whose handshakes are made under its own identity. -/
structure Party where
  endpoint : Endpoint
  identity : Identity
  /-- The worker, whose tree says how high the node's best header is. -/
  worker : Worker
  /-- What the other end is called here. -/
  name : PeerName
  answersVersion : endpoint.router.handlersOf .version = [.handshake identity]
  answersVerack : endpoint.router.handlersOf .verack = [.handshake identity]

/-- A node is a party with all its handlers. -/
def Node.party (n : Node) (now : Int64) (name : PeerName) : Party where
  endpoint := n.endpoint now
  identity := n.identity
  worker := n.worker
  name
  answersVersion := n.handlersOf_router .version
  answersVerack := n.handlersOf_router .verack

/-- The bytes of an announcement on the wire, without its frame. -/
def Announcement.payload (a : Announcement) : Bytes :=
  (Message.version a).payload { version := Protocol.initialVersion }

namespace Party

/-- The frame of an announcement. -/
def versionFrame (q : Party) (a : Announcement) : Bytes :=
  ofPayload q.endpoint.framing Kind.version.command a.payload

/-- The frame of an acknowledgement. -/
def verackFrame (q : Party) : Bytes := ofPayload q.endpoint.framing Kind.verack.command []

/-- What a party opens a connection with. -/
def greeting (q : Party) (receiver : NetAddress) (height : Nat) : Announcement :=
  q.identity.announcement q.endpoint.now receiver height

/-- The height of the best header. -/
def height (q : Party) : Nat := q.worker.tree.bestNode.height

/-- What a party answers the announcement of a node that names no address of its own. -/
def reply (q : Party) : Announcement :=
  q.identity.announcement q.endpoint.now .unspecified q.height

/-- An announcement that a party can take in and has nothing against, and can answer if the other
end has opened the connection. -/
structure Welcomes (q : Party) (outbound : Bool) (a : Announcement) : Prop where
  nonce : a.nonce ≠ q.identity.nonce
  version : Protocol.oldestVersion ≤ a.version
  payload : a.payload.length ≤ q.endpoint.framing.maxPayload.toNat
  /-- The answer goes to nowhere in particular. -/
  sender : a.onWire.sender = .unspecified
  reply : outbound = false → q.reply.payload.length ≤ q.endpoint.framing.maxPayload.toNat

variable {q : Party} {a : Announcement}

/-! ## §2. The two messages -/

/-- An announcement fits its frame or not whatever version is in force. -/
theorem encode_version (hpayload : a.payload.length ≤ q.endpoint.framing.maxPayload.toNat)
    (l : Wire.Layout) :
    encode q.endpoint.framing l (.version a) = .ok (q.versionFrame a) := by
  have hfits : commandFits (Message.version a).command = true := (plain_command .version).fits
  have hlayout : (Message.version a).payload l = a.payload :=
    (Message.payload_onWire l l a).symm.trans (Message.payload_onWire l _ a)
  rw [encode, if_pos hfits]
  simp only [hlayout]
  rw [if_neg (Nat.not_lt.2 hpayload)]
  rfl

theorem sendable_version {outbound : Bool} (h : q.Welcomes outbound a) (version : Int32) :
    Sendable q.endpoint.framing version (.version a.onWire) where
  representable := Announcement.representable_onWire (Int32.le_trans (by decide) h.version)
  unknown := fun _ _ h => nomatch h
  payload := by
    rw [Message.payload_onWire _ { version := Protocol.initialVersion }]
    exact h.payload

/-- The frame is that of the announcement as it comes out. -/
theorem versionFrame_onWire (q : Party) (a : Announcement) (l : Wire.Layout) :
    ofPayload q.endpoint.framing (Message.version a.onWire).command
      ((Message.version a.onWire).payload l) = q.versionFrame a := by
  rw [Message.payload_onWire l { version := Protocol.initialVersion }]
  rfl

theorem sendable_verack (q : Party) (version : Int32) :
    Sendable q.endpoint.framing version .verack where
  representable := trivial
  unknown := fun _ _ h => nomatch h
  payload := Nat.zero_le _

theorem encode_verack (q : Party) (version : Int32) :
    encode q.endpoint.framing { version } .verack = .ok q.verackFrame :=
  (q.sendable_verack version).encode

/-- What a party answers an announcement. -/
def replies (q : Party) (outbound : Bool) : List Message :=
  if outbound then [.verack] else [.version q.reply, .verack]

/-- The frames of that. -/
def replyFrames (q : Party) (outbound : Bool) : Bytes :=
  if outbound then q.verackFrame else q.versionFrame q.reply ++ q.verackFrame

theorem encodeAll_replies {outbound : Bool} (h : q.Welcomes outbound a) (version : Int32) :
    q.endpoint.encodeAll { version } (q.replies outbound) = .ok (q.replyFrames outbound) := by
  cases outbound with
  | true =>
    show q.endpoint.encodeAll { version } [.verack] = .ok q.verackFrame
    rw [Endpoint.encodeAll_cons, encode_verack, Endpoint.encodeAll_nil]
    simp [Except.map]
  | false =>
    show q.endpoint.encodeAll { version } [.version q.reply, .verack]
      = .ok (q.versionFrame q.reply ++ q.verackFrame)
    rw [Endpoint.encodeAll_cons, encode_version (h.reply rfl), Endpoint.encodeAll_cons,
      encode_verack, Endpoint.encodeAll_nil]
    simp [Except.map]

/-! ## §3. Hearing them -/

/-- What is known about a peer once it has announced itself and was answered. -/
def informed (q : Party) (a : Announcement) (peer : Peer) : Peer :=
  (((peer.receive (q.versionFrame a).length).record a.onWire).negotiate
    (min a.version q.identity.version)).send (q.replyFrames peer.outbound).length

/-- What is known about it once it has acknowledged as well. -/
def settled (q : Party) (a : Announcement) (peer : Peer) : Peer :=
  ((q.informed a peer).receive q.verackFrame.length).completeHandshake

/-- What was written to a peer once it was answered. -/
def answered (q : Party) (outbound : Bool) (s : Service) : Service :=
  { s with written := s.written.append (q.replyFrames outbound) }

/-- An announcement is recorded, and its version is in force if it is the lower one. -/
theorem dispatch_version {peer : Peer} (h : q.Welcomes peer.outbound a) (hnew : peer.info = none) :
    (q.endpoint.router.dispatch q.endpoint.now (.version a.onWire)).run ⟨peer, q.worker⟩
      = .ok (q.replies peer.outbound)
          ⟨(peer.record a.onWire).negotiate (min a.version q.identity.version), q.worker⟩ := by
  have hcheck : Handshake.check q.identity peer a.onWire = .ok () := by
    have hnonce : ¬ a.onWire.nonce = q.identity.nonce := h.nonce
    have hversion : ¬ a.onWire.version < Protocol.oldestVersion := Int32.not_lt.2 h.version
    have hinfo : ¬ peer.info.isSome = true := by
      rw [hnew]
      exact Bool.false_ne_true
    rw [Handshake.check, if_neg hnonce, if_neg hversion, if_neg hinfo]
  rw [Router.dispatch_of_one _ rfl q.answersVersion]
  show (Handshake.announced q.identity q.endpoint.now a.onWire).run _ = _
  rw [Handshake.run_announced]
  simp only [hcheck, h.sender]
  rfl

theorem dispatch_verack (q : Party) (x : Exchange) :
    (q.endpoint.router.dispatch q.endpoint.now .verack).run x
      = .ok [] ⟨x.peer.completeHandshake, x.worker⟩ := by
  rw [Router.dispatch_of_one _ rfl q.answersVerack]
  rfl

/-- An announcement is answered in the version that it has put in force. -/
theorem run_version {peer : Peer} (h : q.Welcomes peer.outbound a) (hnew : peer.info = none)
    {s : Service} (hworker : s.worker = q.worker) :
    (q.endpoint.answer (.version a.onWire)).run (peer.receive (q.versionFrame a).length, s)
      = .ok () (q.informed a peer, q.answered peer.outbound s) := by
  let reader := peer.receive (q.versionFrame a).length
  have hdispatch : (q.endpoint.router.dispatch q.endpoint.now (.version a.onWire)).run
      ⟨reader, q.worker⟩ = .ok (q.replies reader.outbound)
        ⟨(reader.record a.onWire).negotiate (min a.version q.identity.version), q.worker⟩ :=
    dispatch_version h hnew
  have hreplies : q.endpoint.encodeAll
      ((reader.record a.onWire).negotiate (min a.version q.identity.version)).layout
        (q.replies reader.outbound) = .ok (q.replyFrames peer.outbound) :=
    encodeAll_replies h (min a.version q.identity.version)
  rw [Endpoint.run_answer, hworker, hdispatch]
  simp only [hreplies]
  rw [← hworker]
  rfl

theorem run_verack (q : Party) (peer : Peer) (s : Service) :
    (q.endpoint.answer .verack).run (peer, s) = .ok () (peer.completeHandshake, s) := by
  rw [Endpoint.run_answer, q.dispatch_verack]
  simp only [Endpoint.encodeAll_nil, List.length_nil, Peer.send_zero]
  rfl

/-- How far a party has come, what it knows about its peer and what it has said by then.  It has heard
a part of the announcement, or all of it and a part of the acknowledgement, or both. -/
inductive Phase (q : Party) (a : Announcement) (start : Peer) (before : Service) (peer : Peer)
    (said stream : Bytes) : Prop where
  | waiting (hstream : stream.length < (q.versionFrame a).length) (hpeer : peer = start)
    (hsaid : said = before.written.toBytes)
  | informed (more : Bytes) (hstream : stream = q.versionFrame a ++ more)
    (hmore : more.length < q.verackFrame.length) (hpeer : peer = q.informed a start)
    (hsaid : said = before.written.toBytes ++ q.replyFrames start.outbound)
  | settled (hstream : stream = q.versionFrame a ++ q.verackFrame)
    (hpeer : peer = q.settled a start)
    (hsaid : said = before.written.toBytes ++ q.replyFrames start.outbound)

section

variable {start : Peer} {before : Service} {stream : Bytes}

theorem said_answered (q : Party) (outbound : Bool) (s : Service) :
    (q.answered outbound s).written.toBytes = s.written.toBytes ++ q.replyFrames outbound :=
  Wire.Output.toBytes_append _ _

/-- **What a party does on whatever has come in of its two messages**: it does not fail, and goes
through the phases. -/
theorem follow_script (h : q.Welcomes start.outbound a) (hnew : start.info = none)
    (hworker : before.worker = q.worker)
    (hstream : stream <+: q.versionFrame a ++ q.verackFrame) :
    let w := follow q.endpoint.framing .frame q.endpoint.answer start before stream
    w.error = none ∧ Phase q a start before w.peer w.state.written.toBytes stream := by
  intro w
  have hversion := sendable_version h start.version
  have hframe := q.versionFrame_onWire a start.layout
  by_cases hpart : stream.length < (q.versionFrame a).length
  · -- the announcement is not there yet
    have hprefix : stream <+: q.versionFrame a :=
      List.prefix_of_prefix_length_le hstream (List.prefix_append _ _) (Nat.le_of_lt hpart)
    have hw : w = ⟨start, before, none, stream⟩ :=
      follow_of_rest before (unfinished_of_part hversion hframe hprefix hpart)
    rw [hw]
    exact ⟨rfl, .waiting hpart rfl rfl⟩
  · -- behind the announcement the stream is a part of the acknowledgement
    obtain ⟨more, rfl⟩ : q.versionFrame a <+: stream :=
      List.prefix_of_prefix_length_le (List.prefix_append _ _) hstream (Nat.not_lt.1 hpart)
    have hmore : more <+: q.verackFrame := (List.prefix_append_right_inj _).1 hstream
    let reader := q.informed a start
    let s := q.answered start.outbound before
    have hverack := q.sendable_verack reader.version
    have hstep : w = follow q.endpoint.framing .frame q.endpoint.answer reader s more :=
      follow_ofMessage rfl hversion hframe (run_version h hnew hworker) more
    by_cases hpart : more.length < q.verackFrame.length
    · have hw : w = ⟨reader, s, none, more⟩ :=
        hstep.trans (follow_of_rest s (unfinished_of_part hverack rfl hmore hpart))
      rw [hw]
      exact ⟨rfl, .informed more rfl hpart rfl (q.said_answered _ _)⟩
    · have hall : more = q.verackFrame :=
        hmore.eq_of_length (Nat.le_antisymm hmore.length_le (Nat.not_lt.1 hpart))
      have hend : follow q.endpoint.framing .frame q.endpoint.answer reader s (q.verackFrame ++ [])
          = follow q.endpoint.framing .frame q.endpoint.answer (q.settled a start) s [] :=
        follow_ofMessage rfl hverack rfl (q.run_verack _ _) []
      have hw : w = ⟨q.settled a start, s, none, []⟩ := by
        rw [hstep, hall, ← List.append_nil q.verackFrame, hend]
        exact follow_of_rest s (unfinished_nil _ _)
      rw [hw]
      exact ⟨rfl, .settled (by rw [hall]) rfl (q.said_answered _ _)⟩

/-- **A party that hears nothing but its two messages does not fail** and goes through the phases. -/
theorem phase_of_follows {x : Side} (h : q.Welcomes start.outbound a) (hnew : start.info = none)
    (hworker : before.worker = q.worker) (hx : x.Follows q.endpoint start before stream)
    (hstream : stream <+: q.versionFrame a ++ q.verackFrame) :
    x.error = none ∧ Phase q a start before x.peer x.said stream := by
  have hpeer : x.peer = _ := hx.reaches.peer
  have herror : x.error = _ := hx.reaches.error
  rw [hpeer, herror, hx.said_eq]
  exact follow_script h hnew hworker hstream

end

end Party

/-! ## §4. Agreement -/

/-- What is known about a node is what it has announced. -/
structure PeerInfo.Tells (info : PeerInfo) (id : Identity) (height : Nat) : Prop where
  version : info.version = id.version
  services : info.services = id.services
  userAgent : info.userAgent = id.userAgent
  startHeight : info.startHeight = Int32.ofNat height

theorem PeerInfo.tells_onWire (id : Identity) (now : Int64) (receiver : NetAddress)
    (height : Nat) :
    (PeerInfo.ofAnnouncement (id.announcement now receiver height).onWire).Tells id height :=
  ⟨rfl, rfl, rfl, rfl⟩

/-- An end that has not failed, whose peer is the node with the identity `id` and its best header at
`height`.  The version agreed on is in force from the moment the peer has announced itself, and not
before that the handshake is taken for complete. -/
structure Side.Sound (x : Side) (agreed : Int32) (id : Identity) (height : Nat) : Prop where
  error : x.error = none
  before : x.peer.info = none → x.peer.version = Protocol.initialVersion
  after : ∀ info, x.peer.info = some info → x.peer.version = agreed ∧ info.Tells id height
  complete : x.peer.handshakeDone = true → x.peer.info.isSome = true

/-- An end that has made its handshake with that node. -/
structure Side.Settled (x : Side) (agreed : Int32) (id : Identity) (height : Nat) : Prop where
  complete : x.peer.handshakeDone = true
  version : x.peer.version = agreed
  info : ∃ info, x.peer.info = some info ∧ info.Tells id height

/-- What is known of a peer that has not told anything about itself. -/
structure Peer.Unheard (peer : Peer) : Prop where
  info : peer.info = none
  version : peer.version = Protocol.initialVersion
  handshakeDone : peer.handshakeDone = false

namespace Party

section

variable {q : Party} {start : Peer} {before : Service} {x : Side} {stream : Bytes}
  {a : Announcement} {id : Identity} {height : Nat}

theorem Phase.unheard_or_informed (h : Phase q a start before x.peer x.said stream) :
    x.peer = start ∨ x.peer.info = some (.ofAnnouncement a.onWire)
      ∧ x.peer.version = min a.version q.identity.version := by
  cases h with
  | waiting _ hpeer _ => exact .inl hpeer
  | informed _ _ _ hpeer _ => exact .inr (hpeer ▸ ⟨rfl, rfl⟩)
  | settled _ hpeer _ => exact .inr (hpeer ▸ ⟨rfl, rfl⟩)

theorem Phase.sound (h : Phase q a start before x.peer x.said stream) (hstart : start.Unheard)
    (hok : x.error = none) (htells : (PeerInfo.ofAnnouncement a.onWire).Tells id height) :
    x.Sound (min a.version q.identity.version) id height := by
  rcases h.unheard_or_informed with hpeer | ⟨hinfo, hversion⟩
  · refine ⟨hok, fun _ => ?_, fun info hinfo => ?_, fun hdone => ?_⟩
    · rw [hpeer, hstart.version]
    · rw [hpeer, hstart.info] at hinfo
      cases hinfo
    · rw [hpeer, hstart.handshakeDone] at hdone
      cases hdone
  · refine ⟨hok, fun hnone => ?_, fun info hsome => ⟨hversion, ?_⟩, fun _ => ?_⟩
    · rw [hinfo] at hnone
      cases hnone
    · rw [hinfo] at hsome
      cases hsome
      exact htells
    · rw [hinfo]
      rfl

/-- What was said tells whether the announcement was heard. -/
theorem Phase.said_cases (h : Phase q a start before x.peer x.said stream) :
    stream.length < (q.versionFrame a).length ∧ x.said = before.written.toBytes
      ∨ x.said = before.written.toBytes ++ q.replyFrames start.outbound := by
  cases h with
  | waiting hlt _ hsaid => exact .inl ⟨hlt, hsaid⟩
  | informed _ _ _ _ hsaid => exact .inr hsaid
  | settled _ _ hsaid => exact .inr hsaid

/-- Whatever the phase, what was said is a part of what is to be said. -/
theorem Phase.said_within (h : Phase q a start before x.peer x.said stream) :
    x.said <+: before.written.toBytes ++ q.replyFrames start.outbound := by
  rcases h.said_cases with ⟨-, hsaid⟩ | hsaid
  · rw [hsaid]
    exact List.prefix_append _ _
  · rw [hsaid]

/-- A party that has heard both messages has made its handshake. -/
theorem Phase.settles (h : Phase q a start before x.peer x.said stream)
    (hall : stream = q.versionFrame a ++ q.verackFrame)
    (htells : (PeerInfo.ofAnnouncement a.onWire).Tells id height) :
    x.Settled (min a.version q.identity.version) id height := by
  cases h with
  | waiting hlt _ _ =>
    rw [hall, List.length_append] at hlt
    omega
  | informed more hmore hlt _ _ =>
    rw [hall, List.append_cancel_left_eq] at hmore
    rw [hmore] at hlt
    omega
  | settled _ hpeer _ =>
    refine ⟨?_, ?_, .ofAnnouncement a.onWire, ?_, htells⟩ <;>
      · rw [hpeer]
        rfl

end

end Party

end HeaderPeer
