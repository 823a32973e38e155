/-
  HeaderPeer.Proofs.Node.Capture — what a node hears in a captured stream.

  The handlers come to their verdict on a message without looking at the worker; what they bring to
  it is the headers of the message, and nothing if they refuse it.  So what a node makes of a whole
  stream can be told without worker, queue or clock: the messages are read under the version in
  force, and the first that cannot be read or is refused ends the stream.

  Main statements:
    * `dispatch_eq` — what the handlers of a node make of a message.
    * `follow_note` — which messages are heard, and how many.
    * `follow_note_pieces` — what is heard of messages that were written one by one.
-/
import HeaderPeer.Node.Stream
import HeaderPeer.Proofs.Connection.Answer
import HeaderPeer.Proofs.Frame.Follow
import HeaderPeer.Proofs.Message.RoundTrip

namespace HeaderPeer

open HeaderPeer.Frame

/-! ## §1. What a message brings -/

/-- The batch that a message brings, if it is one of headers. -/
def Message.batch? (source : PeerName) : Message → Option Admission.Batch
  | .headers items => some ⟨items, source⟩
  | _ => none

/-- The batches that messages bring, in their order. -/
def batchesOf (source : PeerName) (ms : List Message) : List Admission.Batch :=
  ms.filterMap (Message.batch? source)

theorem batchesOf_append (source : PeerName) (ms more : List Message) :
    batchesOf source (ms ++ more) = batchesOf source ms ++ batchesOf source more :=
  List.filterMap_append

/-- The worker with batches put at the end of its queue. -/
def Worker.bring (w : Worker) (batches : List Admission.Batch) : Worker :=
  { w with waiting := batches.foldl Queue.push w.waiting }

theorem Worker.bring_append (w : Worker) (batches more : List Admission.Batch) :
    w.bring (batches ++ more) = (w.bring batches).bring more := by
  rw [bring, List.foldl_append]
  rfl

theorem Worker.waiting_bring (w : Worker) (batches : List Admission.Batch) :
    (w.bring batches).waiting.toList = w.waiting.toList ++ batches := by
  induction batches generalizing w with
  | nil => exact (List.append_nil _).symm
  | cons b batches ih =>
    show ((Worker.bring { w with waiting := w.waiting.push b } batches).waiting.toList) = _
    rw [ih, Queue.toList_push, List.append_assoc]
    rfl

/-! ## §2. Verdicts -/

namespace Node

/-- What the handlers of a node say of a message of a peer: what is known about the peer after it,
or why it is refused. -/
def verdict (n : Node) (peer : Peer) : Message → Except HandlerError Peer
  | .version a =>
    match Handshake.check n.identity peer a with
    | .ok () => .ok ((peer.record a).negotiate (min a.version n.identity.version))
    | .error offence => .error (.misbehaved offence)
  | .verack => .ok peer.completeHandshake
  | .sendHeaders => .ok peer.preferHeaders
  | .headers items =>
    if Protocol.maxHeaders < items.length then .error (.misbehaved (.manyHeaders items.length))
    else .ok peer
  | .block b =>
    match BlockTrial.check BlockRule.standard
        { block := b, params := n.params, hasher := .doubleSha256 } with
    | .ok () => .ok peer
    | .error fault => .error (.misbehaved (.invalidBlock b.header.hash fault))
  | .tx tx =>
    match tx.check n.params with
    | .ok () => .ok peer
    | .error fault => .error (.misbehaved (.invalidTx tx.txid fault))
  | _ => .ok peer

variable {n : Node} {peer peer' : Peer} {m : Message}

theorem name_of_verdict (h : n.verdict peer m = .ok peer') : peer'.name = peer.name := by
  unfold verdict at h
  split at h
  · split at h <;> cases h
    rfl
  · cases h
    rfl
  · cases h
    rfl
  · split at h <;> cases h
    rfl
  · split at h <;> cases h
    rfl
  · split at h <;> cases h
    rfl
  · cases h
    rfl

/-- More headers than a message may have are refused. -/
theorem length_of_verdict {items : List Header} (h : n.verdict peer (.headers items) = .ok peer') :
    items.length ≤ Protocol.maxHeaders := by
  simp only [verdict] at h
  split at h
  · cases h
  · next hfew => exact Nat.not_lt.1 hfew

/-- **What the handlers make of a message.**  They do not look at the worker, and a worker that has
not stopped is brought the headers of a message that they do not refuse.  A message that they refuse
changes nothing. -/
theorem dispatch_eq (n : Node) (now : Int64) (peer : Peer) (m : Message) {w : Worker}
    (hopen : w.stopped = false) :
    match n.verdict peer m with
    | .ok peer' => ∃ replies, (n.router.dispatch now m).run ⟨peer, w⟩
        = .ok replies ⟨peer', w.bring (batchesOf peer.name [m])⟩
    | .error cause => (n.router.dispatch now m).run ⟨peer, w⟩ = .error cause ⟨peer, w⟩ := by
  cases m with
  | version a =>
    have hdispatch : (n.router.dispatch now (.version a)).run ⟨peer, w⟩
        = (Handshake.announced n.identity now a).run ⟨peer, w⟩ := by
      rw [Router.dispatch_of_one now rfl (n.handlersOf_router .version)]
      rfl
    simp only [hdispatch, Handshake.run_announced, verdict]
    cases Handshake.check n.identity peer a with
    | ok u => exact ⟨_, rfl⟩
    | error offence => rfl
  | headers items =>
    have hhandle : ((Handler.headers.handle now (.headers items)).run ⟨peer, w⟩) =
        match (Handler.submitHeaders items).run ⟨peer, w⟩ with
        | .ok () x => .ok [] x
        | .error cause x => .error cause x := by
      simp only [Handler.headers, EStateM.run_bind]
      cases (Handler.submitHeaders items).run ⟨peer, w⟩ <;> rfl
    rw [Router.dispatch_of_one now rfl (n.handlersOf_router .headers), hhandle,
      Handler.run_submitHeaders]
    simp only [verdict]
    by_cases hmany : Protocol.maxHeaders < items.length
    · simp only [if_pos hmany]
    · have hsubmit : w.submit ⟨items, peer.name⟩ = .ok (w.bring [⟨items, peer.name⟩]) :=
        if_neg (by rw [hopen]; exact Bool.false_ne_true)
      simp only [if_neg hmany, hsubmit]
      exact ⟨_, rfl⟩
  | block b =>
    rw [Router.dispatch_of_one now rfl (n.handlersOf_router .block)]
    simp only [verdict, Handler.blocks, Handler.judgeBlock, EStateM.run_bind]
    cases BlockTrial.check BlockRule.standard
      { block := b, params := n.params, hasher := .doubleSha256 } with
    | ok u => exact ⟨_, rfl⟩
    | error fault => rfl
  | tx tx =>
    rw [Router.dispatch_of_one now rfl (n.handlersOf_router .tx)]
    simp only [verdict, Handler.blocks, Handler.judgeTx, EStateM.run_bind]
    cases tx.check n.params with
    | ok u => exact ⟨_, rfl⟩
    | error fault => rfl
  | _ => exact ⟨_, rfl⟩

/-! ## §3. Streams -/

/-- Notes a message that is not refused behind those noted before. -/
def note (n : Node) (m : Message) : EStateM ConnectionError (Peer × List Message) Unit :=
  fun (peer, ms) =>
    match n.verdict peer m with
    | .ok peer => .ok () (peer, ms ++ [m])
    | .error cause => .error (.handler cause) (peer, ms)

theorem run_note (n : Node) (m : Message) (peer : Peer) (ms : List Message) :
    (n.note m).run (peer, ms) =
      match n.verdict peer m with
      | .ok peer' => .ok () (peer', ms ++ [m])
      | .error cause => .error (.handler cause) (peer, ms) := rfl

/-- The peer that a capture is taken to come from: its handshake is over, and the version in force
is the node's own. -/
def capturePeer (n : Node) (source : String) : Peer :=
  ((Peer.fresh { id := n.nextPeer, remote := source } false).negotiate
    n.settings.version).completeHandshake

/-- What the node hears in a captured stream: the messages up to the first that cannot be read or is
refused, and why it is. -/
def captured (n : Node) (source : String) (stream : Bytes) :
    Followed (List Message) ConnectionError :=
  follow n.framing .frame n.note (n.capturePeer source) [] stream

end Node

namespace Frame

/-- How many frames of a stream are complete.  Only the magics and the lengths are looked at. -/
def wholeFrames (magic : Magic) (bs : Bytes) : Nat :=
  let rest := bs.drop (magic.skip bs)
  if rest.length < 24 + lengthAt rest then 0
  else 1 + wholeFrames magic (rest.drop (24 + lengthAt rest))
termination_by bs.length
decreasing_by
  simp only [rest, List.length_drop] at *
  omega

section

variable {magic : Magic} {bs : Bytes}

theorem wholeFrames_of_short
    (h : (bs.drop (magic.skip bs)).length < 24 + lengthAt (bs.drop (magic.skip bs))) :
    wholeFrames magic bs = 0 := by
  rw [wholeFrames]
  exact if_pos h

theorem wholeFrames_of_whole {size : Nat} (hsize : size = 24 + lengthAt (bs.drop (magic.skip bs)))
    (h : size ≤ (bs.drop (magic.skip bs)).length) :
    wholeFrames magic bs = 1 + wholeFrames magic (bs.drop (magic.skip bs + size)) := by
  subst hsize
  rw [wholeFrames, List.drop_drop]
  exact if_neg (Nat.not_lt.2 h)

end

variable {f : Framing} {l : Wire.Layout} {bs : Bytes}

/-- A frame that more is waited for is not complete. -/
theorem short_of_unfinished (h : front f l bs = .unfinished) : bs.length < 24 + lengthAt bs := by
  by_contra hlong
  unfold front at h
  simp only at h
  rw [if_neg (by omega)] at h
  split at h
  · cases h
  · split at h
    · cases h
    · split at h
      · cases h
      · split at h <;> cases h

/-- The message of a whole frame was read from its payload, unless its command has no meaning. -/
theorem decode_of_whole {m : Message} {received wasted size : Nat}
    (h : front f l bs = .whole m received wasted size) :
    m = .unknown (commandAt bs) (payloadAt bs)
      ∨ ∃ kind, Message.decode f.hasher l kind (payloadAt bs) = .ok m := by
  unfold front at h
  simp only at h
  split at h
  · cases h
  · split at h
    · cases h
    · split at h
      · cases h
      · split at h
        · cases h
        · split at h
          · cases h
            exact .inl rfl
          · next kind _ =>
            split at h
            · next hdecode =>
              cases h
              exact .inr ⟨kind, hdecode⟩
            · cases h

end Frame

/-- The hashes of headers that are read are computed. -/
theorem Message.hashed_of_decode {hasher : Hasher} {version : Int32} {kind : Kind} {payload : Bytes}
    {items : List Header} (h : decode hasher { version } kind payload = .ok (.headers items)) :
    ∀ header ∈ items, header.Hashed hasher := by
  unfold decode at h
  split at h
  · next m rest hrun =>
    cases h
    exact (Message.yields hasher version kind payload _ rest hrun).2.1
  · cases h

namespace Node

/-- **What is heard in a stream.**  Every message of headers that is heard has no more headers than
it may have, and their hashes were computed; and without an error there are as many messages as
there are complete frames.  The induction is on the frames. -/
theorem follow_note (n : Node) (peer : Peer) (ms : List Message) (bs : Bytes) :
    let w := follow n.framing .frame n.note peer ms bs
    ∃ more, w.state = ms ++ more
      ∧ (∀ items, .headers items ∈ more → items.length ≤ Protocol.maxHeaders
          ∧ ∀ header ∈ items, header.Hashed .doubleSha256)
      ∧ (w.error = none → more.length = wholeFrames n.framing.magic bs) := by
  intro w
  have hw : w = follow n.framing .frame n.note peer ms bs := rfl
  match h : front n.framing peer.layout (bs.drop (n.framing.magic.skip bs)) with
  | .unfinished =>
    rw [hw, follow_of_unfinished ms h]
    refine ⟨[], (List.append_nil ms).symm, fun _ hmem => (nomatch hmem), fun _ => ?_⟩
    exact (wholeFrames_of_short (short_of_unfinished h)).symm
  | .broken error wasted =>
    rw [hw, follow_of_broken ms h]
    exact ⟨[], (List.append_nil ms).symm, fun _ hmem => (nomatch hmem), fun hok => nomatch hok⟩
  | .whole m received wasted size =>
    have hshorter := (length_of_whole h).2
    obtain ⟨hsize, hlen, -⟩ := front_whole_cases h
    rw [hw, follow_of_whole ms h]
    let reader := (peer.waste (n.framing.magic.skip bs + wasted)).receive received
    rw [run_note]
    cases hverdict : n.verdict reader m with
    | error cause =>
      exact ⟨[], (List.append_nil ms).symm, fun _ hmem => (nomatch hmem), fun hok => nomatch hok⟩
    | ok peer' =>
      obtain ⟨more, hstate, hsound, hcount⟩ := follow_note n peer' (ms ++ [m])
        (bs.drop (n.framing.magic.skip bs + size))
      refine ⟨m :: more, ?_, ?_, ?_⟩
      · rw [hstate, List.append_assoc]
        rfl
      · intro items hmem
        rcases List.mem_cons.1 hmem with rfl | hlater
        · refine ⟨length_of_verdict hverdict, ?_⟩
          obtain hunknown | ⟨kind, hdecode⟩ := decode_of_whole h
          · cases hunknown
          · exact Message.hashed_of_decode hdecode
        · exact hsound items hlater
      · intro hok
        rw [List.length_cons, hcount hok, wholeFrames_of_whole hsize hlen, Nat.add_comm]
termination_by bs.length

/-- **Pieces that are read and say nothing about the peer are heard**, and what is behind them is
heard as if it were the rest of the stream.  The induction is on the pieces. -/
theorem follow_note_pieces (n : Node) {peer : Peer} {ps : List Piece}
    (hreadable : ∀ p ∈ ps, p.Readable n.framing peer.version)
    (hquiet : ∀ p ∈ ps, ∀ reader, n.verdict reader p.message = .ok reader) (ms : List Message)
    (behind : Bytes) :
    follow n.framing .frame n.note peer ms (ps.flatMap (Piece.bytes n.framing peer.layout) ++ behind)
      = follow n.framing .frame n.note
          ((peer.waste (wastedAll peer.layout ps)).receive (receivedAll peer.layout ps))
          (ms ++ ps.map Piece.message) behind := by
  induction ps generalizing peer ms with
  | nil => simp [wastedAll, receivedAll]
  | cons p ps ih =>
    let reader := (peer.waste (p.noise.length + wasted peer.layout p.message)).receive
      (received peer.layout p.message)
    have hp := hreadable p List.mem_cons_self
    have hps : ∀ p ∈ ps, p.Readable n.framing reader.version :=
      fun q hq => hreadable q (List.mem_cons_of_mem p hq)
    have hlater := ih hps (fun q hq => hquiet q (List.mem_cons_of_mem p hq)) (ms ++ [p.message])
    rw [List.flatMap_cons, List.append_assoc, follow_piece hp, run_note,
      hquiet p List.mem_cons_self]
    show follow n.framing .frame n.note reader (ms ++ [p.message])
      (ps.flatMap (Piece.bytes n.framing reader.layout) ++ behind) = _
    rw [hlater, List.append_assoc, Peer.waste_receive, ← Peer.waste_add, ← Peer.receive_add]
    rfl

end Node

end HeaderPeer
