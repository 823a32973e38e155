/-
  HeaderPeer.Proofs.Connection.Answer — what one message does to a connection.

  A message is dispatched, the peer and the worker change as the handlers change them, and the
  replies are written under the layout that the peer has after that.  Of the node's own handlers one
  at most takes a message, and only an announcement changes the version in force.

  Main statements:
    * `Endpoint.run_answer` — what answering a message comes to.
    * `Node.version_of_dispatch` — the version in force after a message that was not refused.
-/
import HeaderPeer.Node.Basic

namespace HeaderPeer

/-! ## §1. Replies -/

namespace Endpoint

/-- The frames of some messages one after the other, if every message has one. -/
def encodeAll (e : Endpoint) (l : Wire.Layout) (ms : List Message) : Except FrameError Bytes :=
  (ms.mapM (Frame.encode e.framing l)).map List.flatten

@[simp] theorem encodeAll_nil (e : Endpoint) (l : Wire.Layout) : e.encodeAll l [] = .ok [] := rfl

theorem encodeAll_cons (e : Endpoint) (l : Wire.Layout) (m : Message) (ms : List Message) :
    e.encodeAll l (m :: ms) =
      match Frame.encode e.framing l m with
      | .error cause => .error cause
      | .ok frame => (e.encodeAll l ms).map (frame ++ ·) := by
  rw [encodeAll, List.mapM_cons]
  cases Frame.encode e.framing l m with
  | error cause => rfl
  | ok frame =>
    show Except.map List.flatten (do return frame :: (← ms.mapM (Frame.encode e.framing l))) = _
    rw [encodeAll]
    cases ms.mapM (Frame.encode e.framing l) <;> rfl

/-- Frames are written under one layout, since sending changes nothing but the traffic. -/
theorem frames_eq (e : Endpoint) (peer : Peer) (ms : List Message) :
    e.frames peer ms = (e.encodeAll peer.layout ms).map fun bs => (bs, peer.send bs.length) := by
  induction ms generalizing peer with
  | nil => simp [frames, Except.map]
  | cons m ms ih =>
    rw [frames, Frame.send, encodeAll_cons]
    cases Frame.encode e.framing peer.layout m with
    | error cause => rfl
    | ok frame =>
      simp only [ih, Peer.layout_send]
      cases e.encodeAll peer.layout ms with
      | error cause => rfl
      | ok bs => simp only [Except.map, List.length_append, Peer.send_add]

theorem run_write (e : Endpoint) (ms : List Message) (peer : Peer) (s : Service) :
    (e.write ms).run (peer, s) =
      match e.encodeAll peer.layout ms with
      | .error cause => .error (.frame cause) (peer, s)
      | .ok bs => .ok () (peer.send bs.length, { s with written := s.written.append bs }) := by
  simp only [write, EStateM.run_bind, EStateM.run_get, frames_eq]
  cases e.encodeAll peer.layout ms <;> rfl

/-- **What answering a message comes to**: the replies are written under the version that is in
force once the handlers are done. -/
theorem run_answer (e : Endpoint) (m : Message) (peer : Peer) (s : Service) :
    (e.answer m).run (peer, s) =
      match (e.router.dispatch e.now m).run { peer, worker := s.worker } with
      | .error cause x => .error (.handler cause) (x.peer, { s with worker := x.worker })
      | .ok replies x =>
        match e.encodeAll x.peer.layout replies with
        | .error cause => .error (.frame cause) (x.peer, { s with worker := x.worker })
        | .ok bs =>
          .ok () (x.peer.send bs.length, { worker := x.worker, written := s.written.append bs }) := by
  simp only [answer, EStateM.run_bind]
  simp only [EStateM.run, dispatch]
  cases e.router.dispatch e.now m { peer, worker := s.worker } with
  | error cause x => rfl
  | ok replies x => exact run_write e replies x.peer { s with worker := x.worker }

/-- A greeting is written before anything else, if it has a frame. -/
theorem greet_ofPeer (e : Endpoint) (peer : Peer) (s : Service) (greeting : Option Message) :
    e.greet (.ofPeer peer) s greeting =
      match e.encodeAll peer.layout greeting.toList with
      | .error cause => (.ofPeer peer, s, some (.frame cause))
      | .ok hello =>
        (.ofPeer (peer.send hello.length), { s with written := s.written.append hello }, none) := by
  have hpeer : (Receiver.ofPeer peer).peer = peer := rfl
  rw [greet, hpeer, run_write]
  cases e.encodeAll peer.layout greeting.toList <;> rfl

end Endpoint

/-! ## §2. Routes -/

namespace Router

variable {r : Router} {m : Message} {kind : Kind}

/-- A message that nobody takes is not answered. -/
theorem dispatch_of_none (now : Int64) (hkind : m.kind? = some kind)
    (hhandlers : r.handlersOf kind = []) : r.dispatch now m = pure [] := by
  rw [dispatch, hkind]
  simp only [hhandlers]
  rfl

/-- A message that one handler takes is answered by that handler. -/
theorem dispatch_of_one (now : Int64) {h : Handler} (hkind : m.kind? = some kind)
    (hhandlers : r.handlersOf kind = [h]) : r.dispatch now m = h.handle now m := by
  funext x
  rw [dispatch, hkind]
  simp only [hhandlers, List.mapM_cons, List.mapM_nil]
  simp only [bind, EStateM.bind]
  cases h.handle now m x with
  | ok a x => simp [pure, EStateM.pure]
  | error cause x => rfl

end Router

/-! ## §3. Versions -/

/-- The version in force after a message that is not refused: an announcement puts the lower of the
two versions in force, and nothing else changes it. -/
def Identity.versionAfter (id : Identity) (version : Int32) : Message → Int32
  | .version a => min a.version id.version
  | _ => version

namespace Handshake

variable {id : Identity} {x : Exchange}

/-- An announcement is refused and changes nothing, or it is recorded and answered. -/
theorem run_announced (id : Identity) (now : Int64) (a : Announcement) (x : Exchange) :
    (announced id now a).run x =
      match check id x.peer a with
      | .error offence => .error (.misbehaved offence) x
      | .ok () =>
        .ok (if x.peer.outbound then [.verack]
          else [.version (id.announcement now a.sender x.worker.tree.bestNode.height), .verack])
          { x with peer := (x.peer.record a).negotiate (min a.version id.version) } := by
  simp only [announced, EStateM.run_bind, EStateM.run_get]
  cases check id x.peer a <;> rfl

theorem version_of_handle (now : Int64) {m : Message} {replies : List Message} {x' : Exchange}
    (h : (handle id now m).run x = .ok replies x') :
    x'.peer.version = id.versionAfter x.peer.version m := by
  cases m with
  | version a =>
    have hrun := run_announced id now a x
    rw [show handle id now (.version a) = announced id now a from rfl, hrun] at h
    cases hcheck : check id x.peer a with
    | error offence =>
      rw [hcheck] at h
      cases h
    | ok u =>
      rw [hcheck] at h
      cases h
      rfl
  | _ =>
    -- no other message is refused, and none of them changes the version
    cases h
    rfl

end Handshake

namespace Handler

variable {now : Int64} {m : Message} {replies : List Message} {x x' : Exchange}

/-- Headers are refused when there are too many, and brought to the worker otherwise. -/
theorem run_submitHeaders (items : List Header) (x : Exchange) :
    (submitHeaders items).run x =
      if Protocol.maxHeaders < items.length then
        .error (.misbehaved (.manyHeaders items.length)) x
      else
        match x.worker.submit { headers := items, peer := x.peer.name } with
        | .ok worker => .ok () { x with worker }
        | .error cause => .error (.closed cause) x := by
  by_cases hmany : Protocol.maxHeaders < items.length
  · rw [if_pos hmany, submitHeaders, if_pos hmany]
    rfl
  · rw [if_neg hmany, submitHeaders, if_neg hmany]
    simp only [EStateM.run_bind, EStateM.run_get]
    cases x.worker.submit { headers := items, peer := x.peer.name } <;> rfl

theorem peer_of_headers (h : (headers.handle now m).run x = .ok replies x') :
    x'.peer = x.peer := by
  cases m with
  | headers items =>
    have hrun : (headers.handle now (.headers items)).run x =
        match (submitHeaders items).run x with
        | .ok () x => .ok [] x
        | .error cause x => .error cause x := by
      simp only [headers, EStateM.run_bind]
      cases (submitHeaders items).run x <;> rfl
    rw [hrun, run_submitHeaders] at h
    by_cases hmany : Protocol.maxHeaders < items.length
    · rw [if_pos hmany] at h
      cases h
    · rw [if_neg hmany] at h
      cases hsubmit : x.worker.submit { headers := items, peer := x.peer.name } with
      | ok worker =>
        rw [hsubmit] at h
        cases h
        rfl
      | error cause =>
        rw [hsubmit] at h
        cases h
  | _ =>
    cases h
    rfl

theorem peer_of_blocks {rules : List BlockRule} {params : Params} {hasher : Hasher}
    (h : ((blocks rules params hasher).handle now m).run x = .ok replies x') :
    x'.peer = x.peer := by
  cases m with
  | block b =>
    simp only [blocks, judgeBlock, EStateM.run_bind] at h
    cases hcheck : BlockTrial.check rules { block := b, params, hasher } with
    | ok u =>
      rw [hcheck] at h
      cases h
      rfl
    | error fault =>
      rw [hcheck] at h
      cases h
  | tx tx =>
    simp only [blocks, judgeTx, EStateM.run_bind] at h
    cases hcheck : tx.check params with
    | ok u =>
      rw [hcheck] at h
      cases h
      rfl
    | error fault =>
      rw [hcheck] at h
      cases h
  | _ =>
    cases h
    rfl

end Handler

namespace Node

theorem handlersOf_router (n : Node) (kind : Kind) :
    n.router.handlersOf kind =
      match kind with
      | .version | .verack | .ping | .sendHeaders => [.handshake n.identity]
      | .headers => [.headers]
      | .block | .tx => [.blocks BlockRule.standard n.params .doubleSha256]
      | _ => [] := by
  cases kind <;> rfl

/-- **The version in force after a message that was not refused.**  One handler at most takes the
message, and it is the handler of announcements that negotiates. -/
theorem version_of_dispatch {n : Node} {now : Int64} {m : Message} {x x' : Exchange}
    {replies : List Message} (h : (n.router.dispatch now m).run x = .ok replies x') :
    x'.peer.version = n.identity.versionAfter x.peer.version m := by
  have htaken : ∀ {kind : Kind} {handler : Handler}, m.kind? = some kind →
      n.router.handlersOf kind = [handler] → (handler.handle now m).run x = .ok replies x' := by
    intro kind handler hkind hhandlers
    rw [← Router.dispatch_of_one now hkind hhandlers]
    exact h
  have hkept : ∀ {kind : Kind}, m.kind? = some kind → n.router.handlersOf kind = [] → x' = x := by
    intro kind hkind hhandlers
    rw [Router.dispatch_of_none now hkind hhandlers] at h
    cases h
    rfl
  cases m with
  | version a => exact Handshake.version_of_handle now (htaken rfl (n.handlersOf_router .version))
  | verack => exact Handshake.version_of_handle now (htaken rfl (n.handlersOf_router .verack))
  | ping nonce => exact Handshake.version_of_handle now (htaken rfl (n.handlersOf_router .ping))
  | sendHeaders =>
    exact Handshake.version_of_handle now (htaken rfl (n.handlersOf_router .sendHeaders))
  | headers items =>
    rw [Handler.peer_of_headers (htaken rfl (n.handlersOf_router .headers))]
    rfl
  | block b =>
    rw [Handler.peer_of_blocks (htaken rfl (n.handlersOf_router .block))]
    rfl
  | tx tx =>
    rw [Handler.peer_of_blocks (htaken rfl (n.handlersOf_router .tx))]
    rfl
  | unknown command payload =>
    -- without a meaning there is nobody to ask
    cases h
    rfl
  | _ =>
    rw [hkept rfl (n.handlersOf_router _)]
    rfl

end Node

end HeaderPeer
