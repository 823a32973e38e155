/-
  HeaderPeer.Proofs.Node.Conversation — what a node says to a peer over a whole stream.

  The conversation with a peer is told from the stream alone, without chunks, stages or buffers.
  The greeting comes first.  Then every message of the stream has its turn: it is read under the
  version that the messages before it negotiated, it is dispatched, and the replies are written
  under the version that it leaves.  The first thing that goes wrong ends the conversation.

  Main statements:
    * `servePeer_eq_conversation` — serving a stream in any chunks comes to the conversation over
      the whole of it.
    * `conversation_of_handshake` — the conversation with a peer that shakes hands and sends a ping.
-/
import HeaderPeer.Node.Stream
import HeaderPeer.Proofs.Connection.Party
import HeaderPeer.Proofs.Frame.Conservation

namespace HeaderPeer

open HeaderPeer.Frame

/-! ## §1. Conversations -/

/-- What a node and a peer had to say to each other. -/
structure Conversation where
  /-- All that was written to the peer. -/
  written : Bytes
  /-- What is known about the peer in the end. -/
  peer : Peer
  worker : Worker
  error : Option ConnectionError

/-- A conversation after some bytes have been written. -/
def Conversation.after (answer : Bytes) (c : Conversation) : Conversation :=
  { c with written := answer ++ c.written }

namespace Node

/-- The conversation over the stream `bs`, whose first message is read under `version`. -/
def converse (n : Node) (now : Int64) (version : Int32) (peer : Peer) (worker : Worker)
    (bs : Bytes) : Conversation :=
  let skipped := n.framing.magic.skip bs
  match h : front n.framing { version } (bs.drop skipped) with
  | .unfinished =>
    -- what is left is no frame, or one that was cut off
    { written := [], peer := peer.waste bs.length, worker, error := none }
  | .broken cause wasted =>
    { written := [], peer := peer.waste (skipped + wasted), worker, error := some (.frame cause) }
  | .whole m received wasted size =>
    have := (length_of_whole h).2
    let reader := (peer.waste (skipped + wasted)).receive received
    match (n.router.dispatch now m).run { peer := reader, worker } with
    | .error cause x =>
      { written := [], peer := x.peer, worker := x.worker, error := some (.handler cause) }
    | .ok replies x =>
      let version := n.identity.versionAfter version m
      match (n.endpoint now).encodeAll { version } replies with
      | .error cause =>
        { written := [], peer := x.peer, worker := x.worker, error := some (.frame cause) }
      | .ok answer =>
        let later := n.converse now version (x.peer.send answer.length) x.worker
          (bs.drop (skipped + size))
        { later with written := answer ++ later.written }
termination_by bs.length

/-- The conversation that the node opens with a greeting, if there is one. -/
def conversation (n : Node) (now : Int64) (peer : Peer) (greeting : Option Message) (bs : Bytes) :
    Conversation :=
  match (n.endpoint now).encodeAll peer.layout greeting.toList with
  | .error cause =>
    { written := [], peer, worker := n.worker, error := some (.frame cause) }
  | .ok hello =>
    let later := n.converse now peer.version (peer.send hello.length) n.worker bs
    { later with written := hello ++ later.written }

section

variable {n : Node} {now : Int64} {peer : Peer} {worker : Worker} {bs : Bytes}

theorem converse_of_unfinished
    (h : front n.framing peer.layout (bs.drop (n.framing.magic.skip bs)) = .unfinished) :
    n.converse now peer.version peer worker bs = ⟨[], peer.waste bs.length, worker, none⟩ := by
  rw [Peer.layout] at h
  rw [converse]
  split <;> simp_all

theorem converse_of_broken {cause : FrameError} {wasted : Nat}
    (h : front n.framing peer.layout (bs.drop (n.framing.magic.skip bs)) = .broken cause wasted) :
    n.converse now peer.version peer worker bs
      = ⟨[], peer.waste (n.framing.magic.skip bs + wasted), worker, some (.frame cause)⟩ := by
  rw [Peer.layout] at h
  rw [converse]
  split <;> simp_all

theorem converse_of_whole {m : Message} {received wasted size : Nat}
    (h : front n.framing peer.layout (bs.drop (n.framing.magic.skip bs))
      = .whole m received wasted size) :
    n.converse now peer.version peer worker bs =
      match (n.router.dispatch now m).run
        ⟨(peer.waste (n.framing.magic.skip bs + wasted)).receive received, worker⟩ with
      | .error cause x => ⟨[], x.peer, x.worker, some (.handler cause)⟩
      | .ok replies x =>
        let version := n.identity.versionAfter peer.version m
        match (n.endpoint now).encodeAll { version } replies with
        | .error cause => ⟨[], x.peer, x.worker, some (.frame cause)⟩
        | .ok answer =>
          let later := n.converse now version (x.peer.send answer.length) x.worker
            (bs.drop (n.framing.magic.skip bs + size))
          { later with written := answer ++ later.written } := by
  rw [Peer.layout] at h
  rw [converse]
  split <;> simp_all

/-- **A piece at the front of a stream has its turn** if it is not refused and can be answered: the
replies are written under the version that its message leaves, and so is what comes of the rest. -/
theorem converse_piece {p : Piece} (h : p.Readable n.framing peer.version)
    {replies : List Message} {x : Exchange} {answer : Bytes}
    (hdispatch : (n.router.dispatch now p.message).run
      ⟨(peer.waste (p.noise.length + wasted peer.layout p.message)).receive
        (received peer.layout p.message), worker⟩ = .ok replies x)
    (hanswer : (n.endpoint now).encodeAll x.peer.layout replies = .ok answer) (behind : Bytes) :
    n.converse now peer.version peer worker (p.bytes n.framing peer.layout ++ behind)
      = (n.converse now x.peer.version (x.peer.send answer.length) x.worker behind).after
          answer := by
  have hfound : n.framing.magic.skip (p.bytes n.framing peer.layout ++ behind) = p.noise.length :=
    h.found behind
  have hpassed : (p.bytes n.framing peer.layout ++ behind).drop
      (p.noise.length + size peer.layout p.message) = behind := h.passed behind
  have hfront : front n.framing peer.layout ((p.bytes n.framing peer.layout ++ behind).drop
      (n.framing.magic.skip (p.bytes n.framing peer.layout ++ behind)))
        = .whole p.message (received peer.layout p.message) (wasted peer.layout p.message)
          (size peer.layout p.message) := by
    rw [hfound]
    exact h.whole behind
  have hversion : x.peer.version = n.identity.versionAfter peer.version p.message :=
    version_of_dispatch hdispatch
  rw [Peer.layout, hversion] at hanswer
  rw [converse_of_whole hfront, hfound, hpassed, hdispatch, hversion]
  simp only [hanswer]
  rfl

/-- **A frame of a known message has its turn**, behind noise that is booked as wasted. -/
theorem converse_ofMessage {noise : Bytes} {m : Message} {kind : Kind}
    (hclear : n.framing.magic.Clear noise) (hkind : m.kind? = some kind)
    (h : Sendable n.framing peer.version m) {frame : Bytes}
    (hframe : ofPayload n.framing m.command (m.payload peer.layout) = frame)
    {replies : List Message} {x : Exchange} {answer : Bytes}
    (hdispatch : (n.router.dispatch now m).run
      ⟨(peer.waste noise.length).receive frame.length, worker⟩ = .ok replies x)
    (hanswer : (n.endpoint now).encodeAll x.peer.layout replies = .ok answer) (behind : Bytes) :
    n.converse now peer.version peer worker (noise ++ (frame ++ behind))
      = (n.converse now x.peer.version (x.peer.send answer.length) x.worker behind).after
          answer := by
  subst hframe
  have hreceived : received peer.layout m
      = (ofPayload n.framing m.command (m.payload peer.layout)).length := h.received_eq hkind
  rw [← hreceived, ← Nat.add_zero noise.length, ← wasted_of_kind peer.layout hkind] at hdispatch
  have hreadable : Piece.Readable n.framing peer.version ⟨noise, m⟩ := ⟨hclear, h⟩
  rw [← List.append_assoc]
  exact converse_piece hreadable hdispatch hanswer behind

end

/-! ## §2. Following the stream -/

theorem endpoint_router (n : Node) (now : Int64) : (n.endpoint now).router = n.router := rfl

theorem endpoint_now (n : Node) (now : Int64) : (n.endpoint now).now = now := rfl

/-- What is known about the peer when the stream has ended and what is left of it was dropped; behind
an error nothing is dropped. -/
def ended (w : Followed Service ConnectionError) : Peer :=
  match w.error with
  | some _ => w.peer
  | none => w.peer.waste w.rest.length

/-- What came of following a stream is what the conversation over it says. -/
structure Tells (w : Followed Service ConnectionError) (before : Bytes) (c : Conversation) :
    Prop where
  written : w.state.written.toBytes = before ++ c.written
  worker : w.state.worker = c.worker
  error : w.error = c.error
  peer : ended w = c.peer

/-- **Answering the messages of a stream makes the conversation over it**: the layout that the peer
has is that of the version negotiated so far.  The induction is on the frames of the stream. -/
theorem follow_tells (n : Node) (now : Int64) (peer : Peer) (s : Service) (bs : Bytes) :
    Tells (follow n.framing .frame (n.endpoint now).answer peer s bs) s.written.toBytes
      (n.converse now peer.version peer s.worker bs) := by
  match h : front n.framing peer.layout (bs.drop (n.framing.magic.skip bs)) with
  | .unfinished =>
    have hskip := Magic.skip_le n.framing.magic bs
    rw [follow_of_unfinished s h, converse_of_unfinished h]
    refine ⟨by simp, rfl, rfl, ?_⟩
    show (peer.waste _).waste (bs.drop _).length = peer.waste bs.length
    rw [← Peer.waste_add, List.length_drop, Nat.add_sub_cancel' hskip]
  | .broken cause wasted =>
    rw [follow_of_broken s h, converse_of_broken h]
    exact ⟨by simp, rfl, rfl, rfl⟩
  | .whole m received wasted size =>
    have hshorter := (length_of_whole h).2
    rw [follow_of_whole s h, converse_of_whole h, Endpoint.run_answer, endpoint_router,
      endpoint_now]
    cases hdispatch : (n.router.dispatch now m).run
        ⟨(peer.waste (n.framing.magic.skip bs + wasted)).receive received, s.worker⟩ with
    | error cause x => exact ⟨by simp, rfl, rfl, rfl⟩
    | ok replies x =>
      -- the replies are written under the version that the message leaves
      have hversion : x.peer.version = n.identity.versionAfter peer.version m :=
        version_of_dispatch hdispatch
      have hlayout : ({ version := x.peer.version } : Wire.Layout) = x.peer.layout := rfl
      simp only [← hversion, hlayout]
      cases (n.endpoint now).encodeAll x.peer.layout replies with
      | error cause => exact ⟨by simp, rfl, rfl, rfl⟩
      | ok answer =>
        have hlater := follow_tells n now (x.peer.send answer.length)
          { worker := x.worker, written := s.written.append answer }
          (bs.drop (n.framing.magic.skip bs + size))
        refine ⟨?_, hlater.worker, hlater.error, hlater.peer⟩
        rw [hlater.written, Wire.Output.toBytes_append, List.append_assoc]
        rfl
termination_by bs.length

/-! ## §3. Serving in chunks -/

/-- What serving a stream came to is what following the whole of it comes to. -/
structure Ends (n : Node) (served : Served) (w : Followed Service ConnectionError) : Prop where
  node : served.node = n.keep w.state
  written : served.written = w.state.written
  error : served.error = w.error
  peer : served.peer = ended w

/-- When nothing more comes in, what is held is dropped. -/
theorem finish_holding {f : Framing} {peer : Peer} {rest : Bytes}
    (hrest : Unfinished f peer.layout rest) :
    (Receiver.holding peer rest).finish f = (.ok none, .ofPeer (peer.waste rest.length)) := by
  have hnext := Receiver.next_feed hrest []
  have hpending := Receiver.pending_holding peer rest []
  simp only [Receiver.feed_nil, List.append_nil, Magic.skip_of_meets hrest.1, List.drop_zero,
    hrest.2, Peer.waste_zero] at hnext hpending
  rw [Receiver.finish, hnext]
  show (_, Receiver.ofPeer (peer.waste (Receiver.holding peer rest).pending)) = _
  rw [hpending]

/-- At the end of a stream nothing is left to answer. -/
theorem close_of_reaches {e : Endpoint} {r : Receiver} {s : Service} {start : Peer}
    {before : Service} {stream : Bytes}
    (h : Receiver.Reaches (r, s, none) (follow e.framing .frame e.answer start before stream)) :
    e.close r s =
      let w := follow e.framing .frame e.answer start before stream
      (.ofPeer (w.peer.waste w.rest.length), w.state, none) := by
  let w := follow e.framing .frame e.answer start before stream
  have hok : w.error = none := h.error.symm
  have hfeed : Receiver.Reaches (e.feed r s []) w := by
    have hmore := h.feed []
    rw [List.append_nil] at hmore
    exact hmore
  have hidle : e.feed r s [] = (.holding w.peer w.rest, w.state, none) :=
    Prod.ext (hfeed.held hok) (Prod.ext hfeed.state (hfeed.error.trans hok))
  have hfinish : (Receiver.holding w.peer w.rest).finish e.framing
      = (.ok none, .ofPeer (w.peer.waste w.rest.length)) :=
    finish_holding (unfinished_follow start before stream hok)
  rw [Endpoint.close, hidle]
  show (((Receiver.holding w.peer w.rest).finish e.framing).2, w.state, none) = _
  rw [hfinish]

/-- A node that was not started gives its worker no turn. -/
theorem work_of_not_started {n : Node} (hidle : n.started = false) (now : Int64) :
    n.work now = n := by
  rw [work, hidle]
  rfl

section

variable {n : Node} {now : Int64} {ending : Ending} {r r' : Receiver} {written : Wire.Output}
  {s : Service} {chunk : Bytes}

theorem serveChunks_of_error (hopen : n.latch.shutdown = false) (chunks : List Bytes)
    {error : ConnectionError}
    (h : (n.endpoint now).feed r { worker := n.worker, written } chunk = (r', s, some error)) :
    serveChunks now ending (chunk :: chunks) n r written
      = ⟨n.keep s, r'.peer, s.written, some error⟩ := by
  rw [serveChunks, hopen, h]
  rfl

theorem serveChunks_of_ok (hopen : n.latch.shutdown = false) (chunks : List Bytes)
    (h : (n.endpoint now).feed r { worker := n.worker, written } chunk = (r', s, none)) :
    serveChunks now ending (chunk :: chunks) n r written
      = serveChunks now ending chunks ((n.keep s).work now) r' s.written := by
  rw [serveChunks, hopen, h]
  rfl

end

/-- **Serving chunks follows the stream that they are cut from**, of which `stream` has come in
already.  The induction is on the chunks. -/
theorem serveChunks_ends (now : Int64) (chunks : List Bytes) {n : Node}
    (hidle : n.started = false) (hopen : n.latch.shutdown = false) {start : Peer}
    {before : Service} {stream : Bytes} {r : Receiver} {written : Wire.Output}
    (h : Receiver.Reaches (r, { worker := n.worker, written }, none)
      (follow n.framing .frame (n.endpoint now).answer start before stream)) :
    Ends n (serveChunks now .closed chunks n r written)
      (follow n.framing .frame (n.endpoint now).answer start before
        (stream ++ chunks.flatten)) := by
  induction chunks generalizing n stream r written with
  | nil =>
    have hok : (follow n.framing .frame (n.endpoint now).answer start before stream).error = none :=
      h.error.symm
    rw [List.flatten_nil, List.append_nil, serveChunks, hopen]
    show Ends n (n.serveEnding now r written .closed) _
    rw [serveEnding, close_of_reaches h]
    refine ⟨rfl, rfl, hok.symm, ?_⟩
    rw [ended, hok]
    rfl
  | cons chunk chunks ih =>
    have hfeed : Receiver.Reaches
        ((n.endpoint now).feed r { worker := n.worker, written } chunk) _ := h.feed chunk
    rw [List.flatten_cons, ← List.append_assoc]
    match hstep : (n.endpoint now).feed r { worker := n.worker, written } chunk with
    | (r', s, some error) =>
      -- behind an error no chunk is looked at, and no more of the stream is followed
      rw [hstep] at hfeed
      rw [serveChunks_of_error hopen chunks hstep, hfeed.follow_append chunks.flatten]
      refine ⟨congrArg n.keep hfeed.state, congrArg Service.written hfeed.state, hfeed.error, ?_⟩
      rw [ended, ← hfeed.error]
      exact hfeed.peer
    | (r', s, none) =>
      -- the same node goes on with the worker that the chunk has left
      rw [hstep] at hfeed
      rw [serveChunks_of_ok hopen chunks hstep, work_of_not_started (n := n.keep s) hidle now]
      have hlater := ih (n := n.keep s) hidle hopen hfeed
      exact ⟨hlater.node, hlater.written, hlater.error, hlater.peer⟩

/-! ## §4. Serving a peer -/

/-- **Serving a stream in any chunks comes to the conversation over the whole of it**: what is
written, the peer, the batches brought to the worker and the error are those of the conversation,
and nothing else about the node changes.  The node is not told to stop, and its worker is not given
a turn, so the tree of headers stays what it is. -/
theorem servePeer_eq_conversation {n : Node} (hidle : n.started = false)
    (hopen : n.latch.shutdown = false) (now : Int64) (peer : Peer) (greeting : Option Message)
    (chunks : List Bytes) :
    let served := n.servePeer now peer greeting { chunks, ending := .closed }
    let c := n.conversation now peer greeting chunks.flatten
    served.written.toBytes = c.written ∧ served.error = c.error ∧ served.peer = c.peer
      ∧ served.node = { n with worker := c.worker } := by
  intro served c
  have hgreet := (n.endpoint now).greet_ofPeer peer { worker := n.worker, written := .empty }
    greeting
  cases hhello : (n.endpoint now).encodeAll peer.layout greeting.toList with
  | error cause =>
    -- without a greeting that can be sent there is no conversation
    rw [hhello] at hgreet
    have hserved : served = ⟨n, peer, .empty, some (.frame cause)⟩ := by
      show n.servePeer now peer greeting _ = _
      rw [servePeer, hgreet]
      rfl
    have hc : c = ⟨[], peer, n.worker, some (.frame cause)⟩ := by
      show n.conversation now peer greeting _ = _
      rw [conversation, hhello]
    rw [hserved, hc]
    exact ⟨rfl, rfl, rfl, rfl⟩
  | ok hello =>
    rw [hhello] at hgreet
    let start := peer.send hello.length
    have hserved : served = serveChunks now .closed chunks n (.ofPeer start)
        (Wire.Output.empty.append hello) := by
      show n.servePeer now peer greeting _ = _
      rw [servePeer, hgreet]
      rfl
    have hc : c =
        let later := n.converse now peer.version start n.worker chunks.flatten
        { later with written := hello ++ later.written } := by
      show n.conversation now peer greeting _ = _
      rw [conversation, hhello]
    let s : Service := { worker := n.worker, written := Wire.Output.empty.append hello }
    have hends := serveChunks_ends now chunks hidle hopen
      (Receiver.reaches_ofPeer n.framing .frame (n.endpoint now).answer start s)
    have htells := n.follow_tells now start s chunks.flatten
    rw [List.nil_append] at hends
    rw [hserved, hc]
    refine ⟨?_, hends.error.trans htells.error, hends.peer.trans htells.peer, ?_⟩
    · rw [hends.written, htells.written, Wire.Output.toBytes_append, Wire.Output.toBytes_empty]
      rfl
    · rw [hends.node, keep, htells.worker]
      rfl

/-! ## §5. A handshake and a ping -/

section

variable {n : Node} {now : Int64} {peer : Peer} {worker : Worker} {name : PeerName} {noise : Bytes}

/-- An announcement that the node has nothing against is answered, and from there on the lower of
the two versions is in force. -/
theorem converse_announcement {a : Announcement} (hclear : n.framing.magic.Clear noise)
    (h : (n.party now name).Welcomes peer.outbound a) (hnew : peer.info = none) (behind : Bytes) :
    let q := n.party now name
    n.converse now peer.version peer n.worker (noise ++ (q.versionFrame a ++ behind))
      = (n.converse now (min a.version n.identity.version)
          (q.informed a (peer.waste noise.length)) n.worker behind).after
            (q.replyFrames peer.outbound) := by
  intro q
  let reader := (peer.waste noise.length).receive (q.versionFrame a).length
  have hdispatch : (n.router.dispatch now (.version a.onWire)).run ⟨reader, n.worker⟩ = _ :=
    Party.dispatch_version (q := q) h hnew
  exact converse_ofMessage hclear rfl (Party.sendable_version h peer.version)
    (q.versionFrame_onWire a peer.layout) hdispatch (Party.encodeAll_replies h _) behind

/-- An acknowledgement completes the handshake and is not answered. -/
theorem converse_verack (now : Int64) (name : PeerName) (hclear : n.framing.magic.Clear noise)
    (behind : Bytes) :
    let q := n.party now name
    n.converse now peer.version peer worker (noise ++ (q.verackFrame ++ behind))
      = n.converse now peer.version
          ((peer.waste noise.length).receive q.verackFrame.length).completeHandshake worker
          behind := by
  intro q
  let reader := (peer.waste noise.length).receive q.verackFrame.length
  have hdispatch : (n.router.dispatch now .verack).run ⟨reader, worker⟩ = _ :=
    q.dispatch_verack ⟨reader, worker⟩
  have hturn := converse_ofMessage hclear rfl (q.sendable_verack peer.version) rfl hdispatch
    (Endpoint.encodeAll_nil _ _) behind
  -- an empty answer changes neither what is written nor the traffic
  rw [List.length_nil, Peer.send_zero] at hturn
  exact hturn

/-- A ping is answered with its nonce. -/
theorem converse_ping {version : Int32} (hversion : peer.version = version)
    (hclear : n.framing.magic.Clear noise) {nonce : UInt64}
    (h : Sendable n.framing version (.ping nonce)) (behind : Bytes) :
    let frame := ofPayload n.framing Kind.ping.command ((Message.ping nonce).payload { version })
    let answer := ofPayload n.framing Kind.pong.command ((Message.pong nonce).payload { version })
    n.converse now version peer worker (noise ++ (frame ++ behind))
      = (n.converse now version
          (((peer.waste noise.length).receive frame.length).send answer.length) worker
          behind).after answer := by
  intro frame answer
  subst hversion
  let reader := (peer.waste noise.length).receive frame.length
  have hdispatch : (n.router.dispatch now (.ping nonce)).run ⟨reader, worker⟩
      = .ok [.pong nonce] ⟨reader, worker⟩ := by
    rw [Router.dispatch_of_one now rfl (n.handlersOf_router .ping)]
    rfl
  -- the answer has the payload of the question
  have hpong : encode n.framing { version := peer.version } (.pong nonce) = .ok answer :=
    Sendable.encode ⟨h.representable, fun _ _ hm => (nomatch hm), h.payload⟩
  have hanswer : (n.endpoint now).encodeAll reader.layout [.pong nonce] = .ok answer := by
    have hencode : encode (n.endpoint now).framing reader.layout (.pong nonce) = .ok answer := hpong
    rw [Endpoint.encodeAll_cons, hencode, Endpoint.encodeAll_nil]
    simp [Except.map]
  exact converse_ofMessage hclear rfl h rfl hdispatch hanswer behind

/-- Behind the last message nothing more is said. -/
theorem converse_nil (now : Int64) (peer : Peer) (worker : Worker) :
    n.converse now peer.version peer worker [] = ⟨[], peer, worker, none⟩ := by
  have hrest := unfinished_nil n.framing peer.layout
  have hfront : front n.framing peer.layout
      (([] : Bytes).drop (n.framing.magic.skip [])) = .unfinished := by
    rw [Magic.skip_of_meets hrest.1]
    exact hrest.2
  rw [converse_of_unfinished hfront, List.length_nil, Peer.waste_zero]

/-- **A handshake and a ping behind it**, each message behind some noise: what a node says to a peer
that has not announced itself before, and what it knows about it then. -/
theorem conversation_of_handshake {noise₁ noise₂ noise₃ : Bytes}
    (hclear₁ : n.framing.magic.Clear noise₁) (hclear₂ : n.framing.magic.Clear noise₂)
    (hclear₃ : n.framing.magic.Clear noise₃) {a : Announcement}
    (h : (n.party now name).Welcomes peer.outbound a) (hnew : peer.info = none) {version : Int32}
    (hversion : min a.version n.identity.version = version) {nonce : UInt64}
    (hping : Sendable n.framing version (.ping nonce)) :
    let q := n.party now name
    let ping := ofPayload n.framing Kind.ping.command ((Message.ping nonce).payload { version })
    let pong := ofPayload n.framing Kind.pong.command ((Message.pong nonce).payload { version })
    let c := n.conversation now peer none (noise₁ ++ (q.versionFrame a
      ++ (noise₂ ++ (q.verackFrame ++ (noise₃ ++ ping)))))
    c.written = q.replyFrames peer.outbound ++ pong ∧ c.worker = n.worker ∧ c.error = none
      ∧ c.peer.version = version ∧ c.peer.handshakeDone = true
      ∧ c.peer.info = some (.ofAnnouncement a.onWire) := by
  intro q ping pong c
  subst hversion
  let version := min a.version n.identity.version
  let informed := q.informed a (peer.waste noise₁.length)
  let settled := ((informed.waste noise₂.length).receive q.verackFrame.length).completeHandshake
  let pinged := ((settled.waste noise₃.length).receive ping.length).send pong.length
  have hfirst (behind : Bytes) :
      n.converse now peer.version peer n.worker (noise₁ ++ (q.versionFrame a ++ behind))
        = (n.converse now informed.version informed n.worker behind).after
            (q.replyFrames peer.outbound) := converse_announcement hclear₁ h hnew behind
  have hsecond (behind : Bytes) :
      n.converse now informed.version informed n.worker (noise₂ ++ (q.verackFrame ++ behind))
        = n.converse now version settled n.worker behind := converse_verack now name hclear₂ behind
  have hthird : n.converse now version settled n.worker (noise₃ ++ ping)
      = ⟨pong, pinged, n.worker, none⟩ := by
    have hversion : settled.version = version := rfl
    have hturn : n.converse now version settled n.worker (noise₃ ++ (ping ++ []))
        = (n.converse now version pinged n.worker []).after pong :=
      converse_ping hversion hclear₃ hping []
    have hend : n.converse now version pinged n.worker [] = ⟨[], pinged, n.worker, none⟩ :=
      converse_nil now pinged n.worker
    rw [List.append_nil] at hturn
    rw [hturn, hend, Conversation.after, List.append_nil]
  have hc : c = ⟨q.replyFrames peer.outbound ++ pong, pinged, n.worker, none⟩ := by
    show n.conversation now peer none _ = _
    rw [conversation, Option.toList_none, Endpoint.encodeAll_nil]
    simp only [List.length_nil, Peer.send_zero, List.nil_append]
    rw [hfirst, hsecond, hthird]
    rfl
  rw [hc]
  exact ⟨rfl, rfl, rfl, rfl, rfl, rfl⟩

end

/-! ### A node with an older version -/

/-- The announcement of a node with an older version than the newest. -/
def olderNode : Announcement :=
  { version := 70015, services := Settings.usual.services, timestamp := 0, receiver := .unspecified,
    sender := .unspecified, nonce := 8, userAgent := "/older/", startHeight := 5, relay := true }

/-- The ping has a nonce, which it would not have in the version that is in force at first.  It is
read, since the announcement has put another version in force, and the answer has a nonce too.
Before every frame there is noise, and before the last one that is a part of the magic. -/
theorem olderNode_served :
    let n := create .usual .regtest 7
    let peer := Peer.fresh { id := 1, remote := "127.0.0.1:18444" } false
    let q := n.party 0 peer.name
    let nonce : Bytes := [42, 0, 0, 0, 0, 0, 0, 0]
    let stream := [0x00] ++ (q.versionFrame olderNode ++ ([0xda] ++ (q.verackFrame
      ++ ([0xfa, 0xbf] ++ ofPayload n.framing Kind.ping.command nonce))))
    let served := n.servePeer 0 peer none
      { chunks := [stream.take 40, stream.drop 40], ending := .closed }
    n.started = false ∧ n.latch.shutdown = false
      ∧ served.written.toBytes = q.versionFrame q.reply ++ q.verackFrame
          ++ ofPayload n.framing Kind.pong.command nonce
      ∧ served.error = none ∧ served.peer.version = 70015 ∧ served.peer.handshakeDone = true := by
  intro n peer q nonce stream served
  have hclear₁ : n.framing.magic.Clear [0x00] := by decide
  have hclear₂ : n.framing.magic.Clear [0xda] := by decide
  have hclear₃ : n.framing.magic.Clear [0xfa, 0xbf] := by decide
  have hwelcome : q.Welcomes peer.outbound olderNode :=
    ⟨by decide, by decide, by decide, rfl, fun _ => by decide⟩
  have hversion : min olderNode.version n.identity.version = 70015 := by decide
  have hping : Sendable n.framing 70015 (.ping 42) :=
    ⟨fun hold => absurd hold (by decide), fun _ _ h => (nomatch h), by decide⟩
  have hasked : (Message.ping 42).payload { version := 70015 } = nonce := by decide
  have hanswered : (Message.pong 42).payload { version := 70015 } = nonce := by decide
  have hreplies : q.replyFrames peer.outbound = q.versionFrame q.reply ++ q.verackFrame := rfl
  let c := n.conversation 0 peer none stream
  have hc : c.written = q.versionFrame q.reply ++ q.verackFrame
        ++ ofPayload n.framing Kind.pong.command nonce
      ∧ c.error = none ∧ c.peer.version = 70015 ∧ c.peer.handshakeDone = true := by
    obtain ⟨hsaid, -, hok, hspoken, hdone, -⟩ :=
      conversation_of_handshake hclear₁ hclear₂ hclear₃ hwelcome rfl hversion hping
    rw [hasked, hanswered, hreplies] at hsaid
    rw [hasked] at hok hspoken hdone
    exact ⟨hsaid, hok, hspoken, hdone⟩
  -- the conversation is known, and from here on the stream may be any
  clear_value stream
  have hcut : [stream.take 40, stream.drop 40].flatten = stream := by simp
  obtain ⟨hwritten, herror, hpeer, -⟩ := servePeer_eq_conversation (n := n) rfl rfl 0 peer none
    [stream.take 40, stream.drop 40]
  rw [hcut] at hwritten herror hpeer
  refine ⟨rfl, rfl, hwritten.trans hc.1, herror.trans hc.2.1, ?_, ?_⟩
  · exact (congrArg Peer.version hpeer).trans hc.2.2.1
  · exact (congrArg Peer.handshakeDone hpeer).trans hc.2.2.2

end Node

end HeaderPeer
