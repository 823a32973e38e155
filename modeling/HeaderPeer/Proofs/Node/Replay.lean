/-
  HeaderPeer.Proofs.Node.Replay — what comes of a captured stream.

  A capture is replayed in pieces, and the worker has its turn after each of them.  What is heard in
  it does not depend on either (`captured`): neither on where the pieces end, nor on how far the
  worker has come.  Along the way an account holds (`Carries`): the batches that waited at the start
  and those that were heard are those that the worker has taken in and those that still wait, all in
  one order.

  Main statements:
    * `follow_replay` — replaying a stream with a worker hears what is heard without one.
    * `replayChunks_carries` — the account after any pieces of the stream.
    * `replay_accounted` — the outcome of a replay, and what the worker makes of it.
-/
import HeaderPeer.Proofs.Admission.Shift
import HeaderPeer.Proofs.Node.Capture
import HeaderPeer.Proofs.Node.Conversation

namespace HeaderPeer

open HeaderPeer.Frame
open HeaderPeer.Admission (Turn standard turnsAt)

namespace Node

/-! ## §1. Messages -/

theorem Replayed.add_eq (c : Replayed) (source : PeerName) (m : Message) :
    c.add m = ⟨c.messages + 1, c.headerBatches + (batchesOf source [m]).length⟩ := by
  cases m <;> rfl

/-- Replaying a message brings what the verdict on it lets pass. -/
theorem run_replayMessage (n : Node) (now : Int64) (m : Message) (peer : Peer) {w : Worker}
    (hopen : w.stopped = false) (replayed : Replayed) :
    (replayMessage (n.endpoint now) m).run (peer, ⟨w, replayed⟩) =
      match n.verdict peer m with
      | .ok peer' => .ok () (peer', ⟨w.bring (batchesOf peer.name [m]), replayed.add m⟩)
      | .error cause => .error (.handler cause) (peer, ⟨w, replayed.add m⟩) := by
  have hdispatch := n.dispatch_eq now peer m hopen
  unfold replayMessage EStateM.run
  cases hverdict : n.verdict peer m with
  | ok peer' =>
    rw [hverdict] at hdispatch
    obtain ⟨replies, hrun⟩ := hdispatch
    have hrun' : (n.endpoint now).router.dispatch (n.endpoint now).now m ⟨peer, w⟩
        = .ok replies ⟨peer', w.bring (batchesOf peer.name [m])⟩ := hrun
    simp only [hrun']
  | error cause =>
    rw [hverdict] at hdispatch
    have hrun : (n.endpoint now).router.dispatch (n.endpoint now).now m ⟨peer, w⟩
        = .error cause ⟨peer, w⟩ := hdispatch
    simp only [hrun]

/-! ## §2. Streams -/

/-- A stream was replayed with a worker, and heard without one. -/
structure Echoes (source : PeerName) (w : Worker) (before : Replayed) (ms : List Message)
    (replay : Followed Replay ConnectionError) (heard : Followed (List Message) ConnectionError) :
    Prop where
  peer : replay.peer = heard.peer
  name : heard.peer.name = source
  error : replay.error = heard.error
  rest : replay.rest = heard.rest
  /-- Behind what was heard before, the worker was brought the headers, and all was counted. -/
  brought : ∃ more, heard.state = ms ++ more ∧ replay.state.worker = w.bring (batchesOf source more)
    ∧ (heard.error = none → replay.state.replayed = ⟨before.messages + more.length,
        before.headerBatches + (batchesOf source more).length⟩)

/-- **With a worker that is open, the same is heard as without one**, and the worker is brought the
batches of what is heard.  The induction is on the frames of the stream. -/
theorem follow_replay (n : Node) (now : Int64) (peer : Peer) {w : Worker}
    (hopen : w.stopped = false) (before : Replayed) (ms : List Message) (bs : Bytes) :
    Echoes peer.name w before ms
      (follow n.framing .frame (replayMessage (n.endpoint now)) peer ⟨w, before⟩ bs)
      (follow n.framing .frame n.note peer ms bs) := by
  match h : front n.framing peer.layout (bs.drop (n.framing.magic.skip bs)) with
  | .unfinished =>
    rw [follow_of_unfinished _ h, follow_of_unfinished _ h]
    exact ⟨rfl, rfl, rfl, rfl, [], (List.append_nil ms).symm, rfl, fun _ => rfl⟩
  | .broken cause wasted =>
    rw [follow_of_broken _ h, follow_of_broken _ h]
    exact ⟨rfl, rfl, rfl, rfl, [], (List.append_nil ms).symm, rfl, fun hok => nomatch hok⟩
  | .whole m received wasted size =>
    have hshorter := (length_of_whole h).2
    let reader := (peer.waste (n.framing.magic.skip bs + wasted)).receive received
    rw [follow_of_whole _ h, follow_of_whole _ h, run_note, n.run_replayMessage now m reader hopen]
    cases hverdict : n.verdict reader m with
    | error cause =>
      exact ⟨rfl, rfl, rfl, rfl, [], (List.append_nil ms).symm, rfl, fun hok => nomatch hok⟩
    | ok peer' =>
      have hname : peer'.name = peer.name := by
        show peer'.name = reader.name
        exact name_of_verdict hverdict
      have hlater := follow_replay n now peer' (w := w.bring (batchesOf peer.name [m])) hopen
        (before.add m) (ms ++ [m]) (bs.drop (n.framing.magic.skip bs + size))
      rw [hname] at hlater
      obtain ⟨more, hstate, hworker, hcount⟩ := hlater.brought
      -- the message comes first, and then what is heard behind it
      have hsplit : batchesOf peer.name (m :: more)
          = batchesOf peer.name [m] ++ batchesOf peer.name more := batchesOf_append _ [m] more
      refine ⟨hlater.peer, hlater.name, hlater.error, hlater.rest, m :: more, ?_, ?_, ?_⟩
      · exact hstate.trans (List.append_assoc ms [m] more)
      · rw [hsplit, Worker.bring_append]
        exact hworker
      · intro hok
        refine (hcount hok).trans ?_
        rw [Replayed.add_eq _ peer.name, hsplit, List.length_append, List.length_cons]
        simp only [Nat.add_assoc, Nat.add_comm 1]
termination_by bs.length

/-! ## §3. The account -/

/-- The node takes batches, and its worker may go on as long as there are any. -/
structure Open (n : Node) : Prop where
  running : n.worker.stopped = false
  wellFormed : n.tree.WellFormed n.params.genesis
  /-- A worker that has begun to work has no reason to stop. -/
  steady : n.started = true → n.latch.shutdown = false ∧ n.worker.Steady

/-- The account of a node that began as `n` and has heard `ms` since: what has become of its worker
and its bus in the turns that were taken. -/
structure Carries (n : Node) (source : PeerName) (ms : List Message) (w : Worker) (bus : Bus)
    (turns : List Turn) : Prop where
  running : w.stopped = false
  cancelled : w.cancelled = n.worker.cancelled
  attended : w.attended = n.worker.attended
  /-- What waited and what was heard is what was taken in and what waits. -/
  waiting : n.worker.waiting.toList ++ batchesOf source ms
    = turns.map Turn.batch ++ w.waiting.toList
  tree : w.tree = (standard n.params).treeAfter n.tree turns
  /-- Every turn has published its report. -/
  published : ∃ events : List Event, (standard n.params).reports n.tree turns = events.map .ok
    ∧ bus = events.foldl Bus.publish n.bus

section

variable {n : Node} {source : PeerName} {ms : List Message} {w : Worker} {bus : Bus}
  {turns : List Turn}

theorem Carries.start (n : Node) (source : PeerName) (hopen : n.worker.stopped = false) :
    Carries n source [] n.worker n.bus [] :=
  ⟨hopen, rfl, rfl, List.append_nil _, rfl, [], rfl, rfl⟩

/-- More is heard. -/
theorem Carries.bring (h : Carries n source ms w bus turns) (more : List Message) :
    Carries n source (ms ++ more) (w.bring (batchesOf source more)) bus turns := by
  refine ⟨h.running, h.cancelled, h.attended, ?_, h.tree, h.published⟩
  rw [batchesOf_append, Worker.waiting_bring, ← List.append_assoc, h.waiting, List.append_assoc]

/-- The worker has a shift. -/
theorem Carries.shift (h : Carries n source ms w bus turns) (hsteady : w.Steady) {now : Int64}
    {w' : Worker} {events : List Event} (hdrained : Worker.Drained n.params now w w' events) :
    Carries n source ms w' (events.foldl Bus.publish bus)
      (turns ++ turnsAt now w.waiting.toList) := by
  obtain ⟨before, hbefore, hbus⟩ := h.published
  refine ⟨hdrained.steady.running, ?_, ?_, ?_, ?_, before ++ events, ?_, ?_⟩
  · rw [← h.cancelled, hdrained.steady.cancelled, hsteady.cancelled]
  · rw [← h.attended, hdrained.steady.attended, hsteady.attended]
  · rw [h.waiting, List.map_append, Admission.batches_turnsAt, hdrained.waiting, List.append_nil]
  · rw [Admission.treeAfter_append, ← h.tree, hdrained.tree]
  · rw [Admission.reports_append, ← h.tree, hbefore, hdrained.reports, List.map_append]
  · rw [List.foldl_append, hbus]

end

/-! ## §4. Pieces -/

/-- A node whose worker has no reason to stop lets it take in all that waits. -/
theorem work_of_steady {n : Node} (hstarted : n.started = true) (hopen : n.latch.shutdown = false)
    (hsteady : n.worker.Steady) (hwf : n.tree.WellFormed n.params.genesis) (now : Int64) :
    ∃ w events, n.work now = { n with worker := w, bus := events.foldl Bus.publish n.bus }
      ∧ Worker.Drained n.params now n.worker w events := by
  obtain ⟨hfailure, hdrained⟩ := Worker.work_drains hsteady hwf now
  refine ⟨_, _, ?_, hdrained⟩
  simp only [work, hstarted, hopen, hfailure, if_true, Bool.false_eq_true, if_false]
  rfl

section

variable {n : Node} {source : PeerName} {ms : List Message} {w : Worker} {bus : Bus}
  {turns : List Turn}

theorem Carries.steady (h : Carries n source ms w bus turns) (hsteady : n.worker.Steady) :
    w.Steady :=
  ⟨h.running, h.cancelled.trans hsteady.cancelled, h.attended.trans hsteady.attended⟩

theorem Carries.wellFormed (h : Carries n source ms w bus turns)
    (hwf : n.tree.WellFormed n.params.genesis) : w.tree.WellFormed n.params.genesis := by
  rw [h.tree]
  exact Admission.wellFormed_treeAfter (a := standard n.params) Admission.highest_keepsNodes hwf
    turns

/-- The worker has its turn, unless it has not begun to work. -/
theorem Carries.work (h : Carries n source ms w bus turns) (hopen : n.Open)
    (hidle : n.started = false → turns = []) (now : Int64) :
    ∃ w' bus' turns', ({ n with worker := w, bus } : Node).work now
        = { n with worker := w', bus := bus' }
      ∧ Carries n source ms w' bus' turns' ∧ (n.started = false → turns' = []) := by
  by_cases hstarted : n.started = true
  · obtain ⟨hlatch, hsteady⟩ := hopen.steady hstarted
    have hsteady' := h.steady hsteady
    obtain ⟨w', events, hwork, hdrained⟩ := work_of_steady (n := { n with worker := w, bus })
      hstarted hlatch hsteady' (h.wellFormed hopen.wellFormed) now
    refine ⟨w', _, _, hwork, h.shift hsteady' hdrained, ?_⟩
    intro hnot
    rw [hstarted] at hnot
    cases hnot
  · have hnot : n.started = false := Bool.eq_false_iff.2 hstarted
    exact ⟨w, bus, turns, work_of_not_started (n := { n with worker := w, bus }) hnot now, h, hidle⟩

end

/-- How much was counted by the time that `ms` had been heard. -/
def countOf (source : PeerName) (ms : List Message) : Replayed :=
  ⟨ms.length, (batchesOf source ms).length⟩

/-- One more piece of a stream is replayed as what follows on what came in before. -/
theorem Carries.piece {n : Node} {source : PeerName} {ms : List Message} {w : Worker} {bus : Bus}
    {turns : List Turn} (h : Carries n source ms w bus turns) (now : Int64) (peer : Peer)
    (rest : Bytes) (hrest : Unfinished n.framing peer.layout rest) (hname : peer.name = source)
    (chunk : Bytes) :
    let later := follow n.framing .frame n.note peer ms (rest ++ chunk)
    ∃ r c, ((Receiver.holding peer rest).feed chunk).run n.framing .frame
          (replayMessage (n.endpoint now)) ⟨w, countOf source ms⟩ = (r, c, later.error)
      ∧ Carries n source later.state c.worker bus turns
      ∧ later.peer.name = source
      ∧ (later.error = none →
        r = .holding later.peer later.rest ∧ c.replayed = countOf source later.state) := by
  intro later
  subst hname
  have hrun := Receiver.run_feed n.framing .frame (replayMessage (n.endpoint now)) hrest
    ⟨w, countOf peer.name ms⟩ chunk
  have hechoes := n.follow_replay now peer h.running (countOf peer.name ms) ms (rest ++ chunk)
  obtain ⟨more, hstate, hworker, hcount⟩ := hechoes.brought
  have hcarries := h.bring more
  rw [← hstate, ← hworker] at hcarries
  match hstep : ((Receiver.holding peer rest).feed chunk).run n.framing .frame
      (replayMessage (n.endpoint now)) ⟨w, countOf peer.name ms⟩ with
  | (r, c, error) =>
    rw [hstep] at hrun
    have hc : c = _ := hrun.state
    have herror : error = later.error := hrun.error.trans hechoes.error
    subst hc
    rw [herror] at hstep
    refine ⟨r, _, hstep, hcarries, hechoes.name, ?_⟩
    intro hok
    have hheld : r = .holding _ _ := hrun.held (hechoes.error.trans hok)
    rw [hechoes.peer, hechoes.rest] at hheld
    refine ⟨hheld, (hcount hok).trans ?_⟩
    show _ = countOf peer.name (follow n.framing .frame n.note peer ms (rest ++ chunk)).state
    rw [hstate, countOf, countOf, batchesOf_append, List.length_append, List.length_append]

/-- What is made of what was heard, once the capture has ended. -/
def outcome (source : PeerName) (heard : Followed (List Message) ConnectionError)
    (ending : Ending) : Except ConnectionError Replayed :=
  match heard.error, ending with
  | some error, _ => .error error
  | none, .broken report => .error (.frame (.transport report))
  | none, _ => .ok (countOf source heard.state)

theorem outcome_of_error {source : PeerName} {heard : Followed (List Message) ConnectionError}
    {ending : Ending} {error : ConnectionError} (h : heard.error = some error) :
    outcome source heard ending = .error error := by
  simp only [outcome, h]

section

variable {n : Node} {now : Int64} {ending : Ending} {r r' : Receiver} {before : Replayed}
  {c : Replay} {chunk : Bytes}

theorem replayChunks_of_error (chunks : List Bytes) {error : ConnectionError}
    (h : (r.feed chunk).run n.framing .frame (replayMessage (n.endpoint now)) ⟨n.worker, before⟩
      = (r', c, some error)) :
    replayChunks now ending (chunk :: chunks) n r before
      = ({ n with worker := c.worker }, .error error) := by
  have hrun : (r.feed chunk).run (n.endpoint now).framing .frame (replayMessage (n.endpoint now))
      ⟨n.worker, before⟩ = (r', c, some error) := h
  simp only [replayChunks, hrun]

theorem replayChunks_of_ok (chunks : List Bytes)
    (h : (r.feed chunk).run n.framing .frame (replayMessage (n.endpoint now)) ⟨n.worker, before⟩
      = (r', c, none)) :
    replayChunks now ending (chunk :: chunks) n r before
      = replayChunks now ending chunks (({ n with worker := c.worker } : Node).work now) r'
          c.replayed := by
  have hrun : (r.feed chunk).run (n.endpoint now).framing .frame (replayMessage (n.endpoint now))
      ⟨n.worker, before⟩ = (r', c, none) := h
  rw [replayChunks]
  simp only [hrun]

end

/-- **The account holds after any pieces of a stream**, of which `stream` has come in already.  The
induction is on the pieces. -/
theorem replayChunks_carries {n : Node} (hopen : n.Open) (now : Int64) (ending : Ending)
    (start : Peer) (chunks : List Bytes) :
    ∀ (stream : Bytes) {w : Worker} {bus : Bus} {turns : List Turn},
      let heard := follow n.framing .frame n.note start [] stream
      heard.error = none → heard.peer.name = start.name →
      Carries n start.name heard.state w bus turns → (n.started = false → turns = []) →
      let whole := follow n.framing .frame n.note start [] (stream ++ chunks.flatten)
      ∃ w' bus' turns', replayChunks now ending chunks { n with worker := w, bus }
            (.holding heard.peer heard.rest) (countOf start.name heard.state)
          = ({ n with worker := w', bus := bus' }, outcome start.name whole ending)
        ∧ Carries n start.name whole.state w' bus' turns' ∧ (n.started = false → turns' = []) := by
  induction chunks with
  | nil =>
    intro stream w bus turns heard hok hname h hidle whole
    have hwhole : whole = heard := by
      show follow n.framing .frame n.note start [] (stream ++ []) = _
      rw [List.append_nil]
    rw [hwhole]
    refine ⟨w, bus, turns, ?_, h, hidle⟩
    cases ending <;> simp only [replayChunks, outcome, hok]
  | cons chunk chunks ih =>
    intro stream w bus turns heard hok hname h hidle whole
    let later := follow n.framing .frame n.note start [] (stream ++ chunk)
    have hlater : follow n.framing .frame n.note heard.peer heard.state (heard.rest ++ chunk)
        = later := by
      have hresume : later = heard.resume n.framing .frame n.note chunk :=
        follow_append start [] stream chunk
      rw [hresume, Followed.resume, hok]
    have hwhole : whole
        = follow n.framing .frame n.note start [] (stream ++ chunk ++ chunks.flatten) := by
      rw [List.append_assoc]
      rfl
    have hpiece := h.piece now heard.peer heard.rest (unfinished_follow start [] stream hok) hname
      chunk
    rw [hlater] at hpiece
    obtain ⟨r, c, hrun, hcarries, hname', hgoes⟩ := hpiece
    cases herror : later.error with
    | some error =>
      -- behind an error no piece is looked at, and nothing more is heard
      have hsame : whole = later := by
        rw [hwhole, follow_append]
        show later.resume n.framing .frame n.note chunks.flatten = later
        rw [Followed.resume, herror]
      rw [herror] at hrun
      rw [hsame]
      refine ⟨c.worker, bus, turns, ?_, hcarries, hidle⟩
      rw [replayChunks_of_error (n := { n with worker := w, bus }) chunks hrun,
        outcome_of_error herror]
    | none =>
      -- the worker has its turn, and the next piece goes on from there
      obtain ⟨rfl, hcount⟩ := hgoes herror
      rw [herror] at hrun
      obtain ⟨w', bus', turns', hwork, hcarries', hidle'⟩ := hcarries.work hopen hidle now
      rw [replayChunks_of_ok (n := { n with worker := w, bus }) chunks hrun, hwork, hcount, hwhole]
      exact ih (stream ++ chunk) herror hname' hcarries' hidle'

/-! ## §5. Captures -/

/-- A batch that is heard has the name of its source. -/
theorem peer_of_batchesOf {source : PeerName} {ms : List Message} {b : Admission.Batch}
    (h : b ∈ batchesOf source ms) : b.peer = source ∧ .headers b.headers ∈ ms := by
  obtain ⟨m, hm, hb⟩ := List.mem_filterMap.1 h
  cases m with
  | headers items =>
    cases hb
    exact ⟨rfl, hm⟩
  | _ => cases hb

/-- **A replay brings the worker what is heard in the capture**, however the capture is cut and
however far the worker has come meanwhile.  It ends well exactly if every frame can be read and no
message is refused, and then it has counted the complete frames and the messages of headers; else
it ends with the first error.  The batches are those of the messages before the error, in their
order, of no more headers than a message may have, all with computed hashes.  They wait behind those
that waited before, or have been taken in.  Once the worker has taken in all of them, it has
published one report on each, and the tree is the one that they leave. -/
theorem replay_accounted (n : Node) (hopen : n.Open) (now : Int64) (source : String)
    (inflow : Inflow) :
    let name : PeerName := { id := n.nextPeer, remote := source }
    let stream := inflow.chunks.flatten
    let heard := n.captured source stream
    let batches := batchesOf name heard.state
    let left := (n.replay now source inflow).1
    (n.replay now source inflow).2 = outcome name heard inflow.ending
      ∧ (heard.error = none → heard.state.length = wholeFrames n.framing.magic stream)
      ∧ (∀ b ∈ batches, b.peer = name ∧ b.headers.length ≤ Protocol.maxHeaders
          ∧ ∀ header ∈ b.headers, header.Hashed .doubleSha256)
      ∧ (∃ turns, Carries n name heard.state left.worker left.bus turns
          ∧ (n.started = false → turns = []))
      ∧ (n.latch.shutdown = false → n.worker.Steady → ∀ later,
          let drained := left.start.work later
          drained.worker.waiting.toList = []
            ∧ ∃ (turns : List Turn) (events : List Event),
              turns.map Turn.batch = n.worker.waiting.toList ++ batches
              ∧ drained.tree = (standard n.params).treeAfter n.tree turns
              ∧ (standard n.params).reports n.tree turns = events.map .ok
              ∧ drained.bus = events.foldl Bus.publish n.bus
              ∧ events.length = n.worker.waiting.length + batches.length) := by
  intro name stream heard batches left
  let next : Node := { n with nextPeer := n.nextPeer + 1 }
  have hnext : next.Open := ⟨hopen.running, hopen.wellFormed, hopen.steady⟩
  let start : Peer := n.capturePeer source
  have hstart : follow next.framing .frame next.note start [] []
      = ⟨start, [], none, []⟩ := follow_of_rest [] (unfinished_nil _ _)
  obtain ⟨w, bus, turns, hreplay, hnextCarries, hidle⟩ := replayChunks_carries hnext now
    inflow.ending start inflow.chunks [] (by rw [hstart]) (by rw [hstart])
    (by rw [hstart]; exact .start next start.name hopen.running) (fun _ => rfl)
  rw [hstart] at hreplay
  have hleft : n.replay now source inflow
      = ({ next with worker := w, bus }, outcome name heard inflow.ending) := hreplay
  -- the account does not look at the number of the next peer
  have hcarries : Carries n name heard.state w bus turns :=
    ⟨hnextCarries.running, hnextCarries.cancelled, hnextCarries.attended, hnextCarries.waiting,
      hnextCarries.tree, hnextCarries.published⟩
  obtain ⟨more, hstate, hsound, hcount⟩ := n.follow_note start [] stream
  have hmore : heard.state = more := hstate
  have hfst : left = { next with worker := w, bus } := congrArg Prod.fst hleft
  refine ⟨congrArg Prod.snd hleft, ?_, ?_, ⟨turns, ?_, hidle⟩, ?_⟩
  · rw [hmore]
    exact hcount
  · intro b hb
    obtain ⟨hpeer, hmem⟩ := peer_of_batchesOf hb
    rw [hmore] at hmem
    exact ⟨hpeer, hsound b.headers hmem⟩
  · rw [hfst]
    exact hcarries
  · intro hlatch hsteady later drained
    obtain ⟨w', events, hwork, hdrained⟩ := work_of_steady
      (n := ({ next with worker := w, bus } : Node).start) rfl hlatch (hcarries.steady hsteady)
      (hcarries.wellFormed hopen.wellFormed) later
    have hall : Carries n name heard.state w' (events.foldl Bus.publish bus) _ :=
      hcarries.shift (hcarries.steady hsteady) hdrained
    have hend : drained = _ := (congrArg (fun left => left.start.work later) hfst).trans hwork
    obtain ⟨published, hreports, hbus⟩ := hall.published
    have hturns := hall.waiting
    rw [hdrained.waiting, List.append_nil] at hturns
    rw [hend]
    refine ⟨hdrained.waiting, _, published, hturns.symm, hall.tree, hreports, hbus, ?_⟩
    -- one report for each turn, and one turn for each batch
    have hlength := congrArg List.length hreports
    rw [Admission.length_reports, List.length_map, ← List.length_map (f := Turn.batch), ← hturns,
      List.length_append, Queue.length_toList] at hlength
    exact hlength.symm

/-! ### A capture that breaks off -/

/-- Two headers on top of the first of the network. -/
def capturedHeaders : List Header :=
  let first := Header.ofParts .doubleSha256 1 Params.regtest.genesisHash 0 0 0x207fffff 5
  [first, Header.ofParts .doubleSha256 1 first.hash 0 0 0x207fffff 2]

/-- A stray byte and the headers, and then a message that is not known. -/
def capturedPieces : List Piece :=
  [⟨[0x00], .headers capturedHeaders⟩, ⟨[], .unknown "sendcmpct" [1, 2, 3]⟩]

/-- The beginning of a ping that is said to have four gigabytes. -/
def boastfulPing : Bytes :=
  [0xfa, 0xbf, 0xb5, 0xda, 0x70, 0x69, 0x6e, 0x67, 0, 0, 0, 0, 0, 0, 0, 0, 0xff, 0xff, 0xff, 0xff]

theorem readable_capturedPieces :
    ∀ p ∈ capturedPieces, p.Readable (create .usual .regtest 7).framing 70016 := by
  intro p hp
  rcases List.mem_pair.1 hp with rfl | rfl
  · refine ⟨by decide, ?_, fun _ _ h => (nomatch h), by decide +kernel⟩
    intro header hheader
    rcases List.mem_pair.1 hheader with rfl | rfl
    · exact Header.hashed_rehash _ _
    · exact Header.hashed_rehash _ _
  · have hunnamed : ∀ kind : Kind, kind.command ≠ "sendcmpct" := by
      intro kind
      cases kind <;> decide
    exact ⟨by decide, sendable_unknown (by decide) hunnamed (by decide)⟩

/-- The replay ends with an error, and the headers in front of it are brought to the worker, which
takes them in as one batch. -/
theorem capturedPieces_replayed :
    let n := (create .usual .regtest 7).start
    let stream := capturedPieces.flatMap (Piece.bytes n.framing { version := 70016 })
      ++ boastfulPing
    let inflow : Inflow := ⟨[stream.take 9, stream.drop 9], .closed⟩
    let drained := (n.replay 0 "capture" inflow).1.start.work 60
    n.Open
      ∧ (n.replay 0 "capture" inflow).2
          = .error (.frame (.payloadTooLarge 0xffffffff Protocol.maxPayload))
      ∧ drained.worker.waiting.toList = []
      ∧ ∃ turn event, turn.batch = ⟨capturedHeaders, { id := n.nextPeer, remote := "capture" }⟩
        ∧ drained.tree = (standard n.params).treeAfter n.tree [turn]
        ∧ (standard n.params).reports n.tree [turn] = [.ok event]
        ∧ drained.bus = n.bus.publish event := by
  intro n stream inflow drained
  have hopen : n.Open :=
    ⟨rfl, HeaderTree.wellFormed_ofGenesis _, fun _ => ⟨rfl, rfl, rfl, rfl⟩⟩
  let start := n.capturePeer "capture"
  have hquiet : ∀ p ∈ capturedPieces, ∀ reader, n.verdict reader p.message = .ok reader := by
    intro p hp reader
    rcases List.mem_pair.1 hp with rfl | rfl <;> rfl
  have hreadable : ∀ p ∈ capturedPieces, p.Readable n.framing start.version :=
    readable_capturedPieces
  have hbroken (l : Wire.Layout) :
      front n.framing l (boastfulPing.drop (n.framing.magic.skip boastfulPing))
        = .broken (.payloadTooLarge 0xffffffff Protocol.maxPayload) 0 := rfl
  -- the pieces are heard, and then the beginning of the ping ends the stream
  have hheard : (n.captured "capture" stream).error
        = some (.frame (.payloadTooLarge 0xffffffff Protocol.maxPayload))
      ∧ (n.captured "capture" stream).state = capturedPieces.map Piece.message := by
    have hpieces : n.captured "capture" stream = _ :=
      n.follow_note_pieces hreadable hquiet [] boastfulPing
    rw [hpieces, follow_of_broken _ (hbroken _)]
    exact ⟨rfl, rfl⟩
  have hcut : inflow.chunks.flatten = stream := by
    show [stream.take 9, stream.drop 9].flatten = stream
    simp
  obtain ⟨hresult, -, -, -, hdrain⟩ := replay_accounted n hopen 0 "capture" inflow
  obtain ⟨hempty, turns, events, hturns, htree, hreports, hbus, hcount⟩ :=
    hdrain rfl ⟨rfl, rfl, rfl⟩ 60
  rw [hcut] at hresult
  rw [hcut, hheard.2] at hturns hcount
  obtain ⟨turn, rfl, hturn⟩ := List.map_eq_singleton_iff.1 hturns
  obtain ⟨event, rfl⟩ := List.length_eq_one_iff.1 hcount
  exact ⟨hopen, hresult.trans (outcome_of_error hheard.1), hempty, turn, event, hturn, htree,
    hreports, hbus⟩

end Node

end HeaderPeer
