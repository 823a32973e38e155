/-
  HeaderPeer.Proofs.Handler.Handshake — what a peer can bring about by what it says.

  A peer says what it likes, in any order, and goes on after it was refused.  Of all its
  announcements one counts, and the announcements alone settle which: the first one that comes from
  another node and whose version is not too old (`firstAcceptable`).  All that the handler keeps of
  a peer can be told from the messages so far (`Remembers`), whatever the clock said and however the
  tree of headers has grown meanwhile.

  An acknowledgement is taken as it comes.  It does not ask for an announcement before it, so a peer
  that acknowledges first has completed its handshake while the first version of all is in force.

  Main statements:
    * `remembers_after` — what is known about a peer after any messages.
    * `accepted_eq` — the announcements that were accepted: the first acceptable one, and no other.
    * `complete_iff_acknowledged` — when a handshake is complete, and when a version is negotiated.
    * `negotiates_once` — what one more message can do, after any messages and before any others.
-/
import HeaderPeer.Proofs.Connection.Answer
import Mathlib.Data.List.Induction

namespace HeaderPeer.Handshake

/-! ## §1. Messages of a peer -/

/-- A message that comes in, with the time of the clock and the worker as it is by then. -/
structure Arrival where
  message : Message
  now : Int64
  worker : Worker

/-- What a message makes of a peer, and how it is answered, if nobody but the handler of
announcements is asked. -/
def hear (id : Identity) (peer : Peer) (m : Arrival) : Peer × Except HandlerError (List Message) :=
  match ((Router.mk [.handshake id]).dispatch m.now m.message).run ⟨peer, m.worker⟩ with
  | .ok replies x => (x.peer, .ok replies)
  | .error cause x => (x.peer, .error cause)

/-- What is known about a peer after some messages.  A message that was refused does not end
them. -/
def after (id : Identity) (peer : Peer) (ms : List Arrival) : Peer :=
  ms.foldl (fun peer m => (hear id peer m).1) peer

/-- The answer to an announcement that is accepted. -/
def welcome (id : Identity) (outbound : Bool) (m : Arrival) (a : Announcement) : List Message :=
  if outbound then [.verack]
  else [.version (id.announcement m.now a.sender m.worker.tree.bestNode.height), .verack]

theorem after_append (id : Identity) (peer : Peer) (ms later : List Arrival) :
    after id peer (ms ++ later) = after id (after id peer ms) later :=
  List.foldl_append

theorem after_concat (id : Identity) (peer : Peer) (ms : List Arrival) (m : Arrival) :
    after id peer (ms ++ [m]) = (hear id (after id peer ms) m).1 :=
  after_append id peer ms [m]

/-- What each kind of message comes to. -/
theorem hear_eq (id : Identity) (peer : Peer) (m : Arrival) :
    hear id peer m =
      match m.message with
      | .version a =>
        match check id peer a with
        | .error offence => (peer, .error (.misbehaved offence))
        | .ok () => ((peer.record a).negotiate (min a.version id.version),
            .ok (welcome id peer.outbound m a))
      | .verack => (peer.completeHandshake, .ok [])
      | .ping nonce => (peer, .ok [.pong nonce])
      | .sendHeaders => (peer.preferHeaders, .ok [])
      | _ => (peer, .ok []) := by
  obtain ⟨message, now, worker⟩ := m
  cases message with
  | version a =>
    have hhandlers : (Router.mk [.handshake id]).handlersOf .version = [.handshake id] := rfl
    have hrun : ((Router.mk [.handshake id]).dispatch now (.version a)).run ⟨peer, worker⟩
        = (announced id now a).run ⟨peer, worker⟩ := by
      rw [Router.dispatch_of_one now rfl hhandlers]
      rfl
    rw [hear, hrun, run_announced]
    simp only
    cases check id peer a <;> rfl
  | _ => rfl

/-! ## §2. The announcement that counts -/

/-- An announcement that is accepted if none was before: it is another node's, and its version is not
too old. -/
def Acceptable (id : Identity) (a : Announcement) : Prop :=
  a.nonce ≠ id.nonce ∧ Protocol.oldestVersion ≤ a.version

instance (id : Identity) (a : Announcement) : Decidable (Acceptable id a) :=
  inferInstanceAs (Decidable (_ ∧ _))

/-- The acceptable announcement that a message makes, if it makes one. -/
def Arrival.acceptable? (id : Identity) (m : Arrival) : Option Announcement :=
  match m.message with
  | .version a => if Acceptable id a then some a else none
  | _ => none

/-- The first acceptable announcement among some messages. -/
def firstAcceptable (id : Identity) (ms : List Arrival) : Option Announcement :=
  ms.findSome? (Arrival.acceptable? id)

section

variable {id : Identity} {peer : Peer} {ms : List Arrival} {m : Arrival} {a : Announcement}

theorem check_eq_ok_iff : check id peer a = .ok () ↔ Acceptable id a ∧ peer.info = none := by
  unfold check Acceptable
  by_cases hnonce : a.nonce = id.nonce
  · simp [hnonce]
  · by_cases hversion : a.version < Protocol.oldestVersion
    · simp [hnonce, hversion, Int32.not_le.2 hversion]
    · cases hinfo : peer.info <;> simp [hnonce, hversion, Int32.not_lt.1 hversion]

/-- The offences of an announcement, in the order in which they are looked for. -/
theorem offence_cases {offence : Offence} (h : check id peer a = .error offence) :
    offence = .selfConnection ∧ a.nonce = id.nonce
      ∨ offence = .obsoleteVersion a.version ∧ a.version < Protocol.oldestVersion
      ∨ offence = .repeatedAnnouncement ∧ peer.info ≠ none := by
  unfold check at h
  split_ifs at h with hnonce hversion hinfo
  · cases h
    exact .inl ⟨rfl, hnonce⟩
  · cases h
    exact .inr (.inl ⟨rfl, hversion⟩)
  · cases h
    exact .inr (.inr ⟨rfl, Option.isSome_iff_ne_none.1 hinfo⟩)

theorem acceptable?_eq_some_iff :
    m.acceptable? id = some a ↔ m.message = .version a ∧ Acceptable id a := by
  unfold Arrival.acceptable?
  cases hm : m.message with
  | version b =>
    by_cases hb : Acceptable id b
    · simp only [if_pos hb, Option.some.injEq, Message.version.injEq]
      constructor
      · rintro rfl
        exact ⟨rfl, hb⟩
      · exact And.left
    · simp only [if_neg hb, Message.version.injEq]
      constructor
      · intro h
        cases h
      · rintro ⟨rfl, ha⟩
        exact absurd ha hb
  | _ => simp

theorem acceptable_of_first (h : firstAcceptable id ms = some a) : Acceptable id a := by
  obtain ⟨m, -, hm⟩ := List.exists_of_findSome?_eq_some h
  exact (acceptable?_eq_some_iff.1 hm).2

theorem firstAcceptable_eq_none_iff :
    firstAcceptable id ms = none ↔ ∀ m ∈ ms, ∀ a, m.message = .version a → ¬ Acceptable id a := by
  rw [firstAcceptable, List.findSome?_eq_none_iff]
  simp only [Option.eq_none_iff_forall_ne_some, ne_eq, acceptable?_eq_some_iff, not_and]

theorem firstAcceptable_append (id : Identity) (ms later : List Arrival) :
    firstAcceptable id (ms ++ later) = (firstAcceptable id ms).or (firstAcceptable id later) :=
  List.findSome?_append

theorem firstAcceptable_concat (id : Identity) (ms : List Arrival) (m : Arrival) :
    firstAcceptable id (ms ++ [m]) = (firstAcceptable id ms).or (m.acceptable? id) := by
  rw [firstAcceptable_append, firstAcceptable, firstAcceptable, List.findSome?_singleton]

/-! ## §3. One message -/

theorem outbound_hear (id : Identity) (peer : Peer) (m : Arrival) :
    (hear id peer m).1.outbound = peer.outbound := by
  rw [hear_eq]
  cases m.message with
  | version a =>
    simp only
    cases check id peer a <;> rfl
  | _ => rfl

theorem handshakeDone_hear (id : Identity) (peer : Peer) (m : Arrival) :
    (hear id peer m).1.handshakeDone = true ↔
      peer.handshakeDone = true ∨ m.message = .verack := by
  rw [hear_eq]
  cases m.message with
  | version a =>
    simp only [reduceCtorEq, or_false]
    cases check id peer a <;> rfl
  | verack => simp [Peer.completeHandshake]
  | _ => simp [Peer.preferHeaders]

theorem prefersHeaders_hear (id : Identity) (peer : Peer) (m : Arrival) :
    (hear id peer m).1.prefersHeaders = true ↔
      peer.prefersHeaders = true ∨ m.message = .sendHeaders := by
  rw [hear_eq]
  cases m.message with
  | version a =>
    simp only [reduceCtorEq, or_false]
    cases check id peer a <;> rfl
  | sendHeaders => simp [Peer.preferHeaders]
  | _ => simp [Peer.completeHandshake]

/-- An announcement that is accepted is recorded, its version is negotiated, and it is welcomed. -/
theorem hear_of_ok (hm : m.message = .version a) (hcheck : check id peer a = .ok ()) :
    hear id peer m = ((peer.record a).negotiate (min a.version id.version),
      .ok (welcome id peer.outbound m a)) := by
  rw [hear_eq, hm]
  simp only [hcheck]

/-- An announcement that is refused changes nothing. -/
theorem hear_of_offence {offence : Offence} (hm : m.message = .version a)
    (hcheck : check id peer a = .error offence) :
    hear id peer m = (peer, .error (.misbehaved offence)) := by
  rw [hear_eq, hm]
  simp only [hcheck]

/-- An announcement is answered exactly if it is accepted. -/
theorem answered_iff (hm : m.message = .version a) :
    (∃ replies, (hear id peer m).2 = .ok replies) ↔ check id peer a = .ok () := by
  cases hcheck : check id peer a with
  | ok u =>
    rw [hear_of_ok hm hcheck]
    exact ⟨fun _ => rfl, fun _ => ⟨_, rfl⟩⟩
  | error offence =>
    rw [hear_of_offence hm hcheck]
    simp

theorem eq_welcome_of_answered {replies : List Message} (hm : m.message = .version a)
    (h : (hear id peer m).2 = .ok replies) : replies = welcome id peer.outbound m a := by
  have hcheck : check id peer a = .ok () := (answered_iff hm).1 ⟨replies, h⟩
  rw [hear_of_ok hm hcheck] at h
  cases h
  rfl

/-- Whatever else is said is answered, but neither by an announcement nor by an acknowledgement. -/
theorem answer_of_other (h : ∀ a, m.message ≠ .version a) :
    ∃ replies, (hear id peer m).2 = .ok replies
      ∧ .verack ∉ replies ∧ ∀ a, .version a ∉ replies := by
  rw [hear_eq]
  cases hm : m.message with
  | version a => exact absurd hm (h a)
  | _ => simp

/-- Only an announcement is refused, and it then changes nothing. -/
theorem refused_cases {cause : HandlerError} (h : (hear id peer m).2 = .error cause) :
    (hear id peer m).1 = peer ∧ ∃ a offence, m.message = .version a
      ∧ check id peer a = .error offence ∧ cause = .misbehaved offence := by
  cases hm : m.message with
  | version a =>
    cases hcheck : check id peer a with
    | ok u =>
      rw [hear_of_ok hm hcheck] at h
      cases h
    | error offence =>
      rw [hear_of_offence hm hcheck] at h ⊢
      cases h
      exact ⟨rfl, a, offence, rfl, hcheck, rfl⟩
  | _ =>
    rw [hear_eq, hm] at h
    cases h

/-- Nothing is told of the peer but by an announcement that is accepted. -/
theorem told_of_not_accepted (h : ¬ ∃ a, m.message = .version a ∧ check id peer a = .ok ()) :
    (hear id peer m).1.info = peer.info ∧ (hear id peer m).1.version = peer.version := by
  cases hm : m.message with
  | version a =>
    cases hcheck : check id peer a with
    | ok u => exact absurd ⟨a, hm, hcheck⟩ h
    | error offence =>
      rw [hear_of_offence hm hcheck]
      exact ⟨rfl, rfl⟩
  | _ =>
    rw [hear_eq, hm]
    exact ⟨rfl, rfl⟩

/-! ## §4. All messages of a peer -/

/-- What a peer has told of itself is what the announcement says that counts. -/
structure Told (id : Identity) (ms : List Arrival) (peer : Peer) : Prop where
  info : peer.info = (firstAcceptable id ms).map .ofAnnouncement
  version : peer.version =
    match firstAcceptable id ms with
    | none => Protocol.initialVersion
    | some a => min a.version id.version

/-- What is known about a peer is what its messages say. -/
structure Remembers (id : Identity) (ms : List Arrival) (peer : Peer) : Prop extends
    Told id ms peer where
  handshakeDone : peer.handshakeDone = true ↔ ∃ m ∈ ms, m.message = .verack
  prefersHeaders : peer.prefersHeaders = true ↔ ∃ m ∈ ms, m.message = .sendHeaders

/-- An announcement is accepted if it is acceptable and the first such one. -/
theorem Told.check_iff (h : Told id ms peer) :
    check id peer a = .ok () ↔ Acceptable id a ∧ firstAcceptable id ms = none := by
  rw [check_eq_ok_iff, h.info, Option.map_eq_none_iff]

theorem Told.hear (h : Told id ms peer) (m : Arrival) :
    Told id (ms ++ [m]) (Handshake.hear id peer m).1 := by
  by_cases haccept : ∃ a, m.message = .version a ∧ check id peer a = .ok ()
  · -- from here on this announcement counts
    obtain ⟨a, hm, hcheck⟩ := haccept
    obtain ⟨ha, hnone⟩ := h.check_iff.1 hcheck
    have hfirst : firstAcceptable id (ms ++ [m]) = some a := by
      rw [firstAcceptable_concat, hnone, Option.none_or]
      exact acceptable?_eq_some_iff.2 ⟨hm, ha⟩
    rw [hear_of_ok hm hcheck]
    refine ⟨?_, ?_⟩
    · rw [hfirst]
      rfl
    · rw [hfirst]
      rfl
  · -- nothing is told, and no announcement begins to count
    have hfirst : firstAcceptable id (ms ++ [m]) = firstAcceptable id ms := by
      rw [firstAcceptable_concat]
      cases hfirst : firstAcceptable id ms with
      | some b => rfl
      | none =>
        rw [Option.none_or, Option.eq_none_iff_forall_ne_some]
        intro a ha
        obtain ⟨hm, ha⟩ := acceptable?_eq_some_iff.1 ha
        exact haccept ⟨a, hm, h.check_iff.2 ⟨ha, hfirst⟩⟩
    obtain ⟨hinfo, hversion⟩ := told_of_not_accepted haccept
    exact ⟨by rw [hinfo, h.info, hfirst], by rw [hversion, h.version, hfirst]⟩

/-- **Messages are remembered one by one.** -/
theorem Remembers.hear (h : Remembers id ms peer) (m : Arrival) :
    Remembers id (ms ++ [m]) (Handshake.hear id peer m).1 where
  toTold := h.toTold.hear m
  handshakeDone := by
    rw [handshakeDone_hear, h.handshakeDone]
    simp [or_and_right, exists_or]
  prefersHeaders := by
    rw [prefersHeaders_hear, h.prefersHeaders]
    simp [or_and_right, exists_or]

/-- **What is known about a peer after any messages** is what these say. -/
theorem remembers_after (id : Identity) (name : PeerName) (outbound : Bool) (ms : List Arrival) :
    Remembers id ms (after id (.fresh name outbound) ms) := by
  induction ms using List.reverseRecOn with
  | nil => exact ⟨⟨rfl, rfl⟩, by simp [after, Peer.fresh], by simp [after, Peer.fresh]⟩
  | append_singleton ms m ih =>
    rw [after_concat]
    exact ih.hear m

theorem outbound_after (id : Identity) (peer : Peer) (ms : List Arrival) :
    (after id peer ms).outbound = peer.outbound := by
  induction ms using List.reverseRecOn with
  | nil => rfl
  | append_singleton ms m ih => rw [after_concat, outbound_hear, ih]

/-! ## §5. The announcements that are accepted -/

/-- The announcement that a message makes, if it is accepted. -/
def accepted? (id : Identity) (peer : Peer) (m : Arrival) : Option Announcement :=
  match m.message, (hear id peer m).2 with
  | .version a, .ok _ => some a
  | _, _ => none

/-- The announcements of a peer that are accepted. -/
def accepted (id : Identity) : Peer → List Arrival → List Announcement
  | _, [] => []
  | peer, m :: rest => (accepted? id peer m).toList ++ accepted id (hear id peer m).1 rest

theorem accepted_append (id : Identity) (peer : Peer) (ms later : List Arrival) :
    accepted id peer (ms ++ later) = accepted id peer ms ++ accepted id (after id peer ms) later := by
  induction ms generalizing peer with
  | nil => rfl
  | cons m ms ih =>
    rw [List.cons_append, accepted, accepted, ih, List.append_assoc]
    rfl

theorem accepted?_eq_some_iff :
    accepted? id peer m = some a ↔ m.message = .version a ∧ check id peer a = .ok () := by
  unfold accepted?
  cases hm : m.message with
  | version b =>
    cases hcheck : check id peer b with
    | ok u =>
      rw [hear_of_ok hm hcheck]
      simp only [Option.some.injEq, Message.version.injEq]
      constructor
      · rintro rfl
        exact ⟨rfl, hcheck⟩
      · exact And.left
    | error offence =>
      rw [hear_of_offence hm hcheck]
      simp only [Message.version.injEq, reduceCtorEq, false_iff, not_and]
      rintro rfl hok
      cases hcheck.symm.trans hok
  | _ => simp

theorem Told.accepted?_eq_some_iff (h : Told id ms peer) :
    accepted? id peer m = some a ↔ m.acceptable? id = some a ∧ firstAcceptable id ms = none := by
  rw [Handshake.accepted?_eq_some_iff, h.check_iff, acceptable?_eq_some_iff, and_assoc]

/-- **One announcement at most is accepted**: the first acceptable one. -/
theorem accepted_eq (id : Identity) (name : PeerName) (outbound : Bool) (ms : List Arrival) :
    accepted id (.fresh name outbound) ms = (firstAcceptable id ms).toList := by
  induction ms using List.reverseRecOn with
  | nil => rfl
  | append_singleton ms m ih =>
    have htold := (remembers_after id name outbound ms).toTold
    have hone : accepted id (after id (.fresh name outbound) ms) [m]
        = (accepted? id (after id (.fresh name outbound) ms) m).toList := List.append_nil _
    rw [accepted_append, ih, hone, firstAcceptable_concat]
    cases hfirst : firstAcceptable id ms with
    | some b =>
      have hnone : accepted? id (after id (.fresh name outbound) ms) m = none := by
        rw [Option.eq_none_iff_forall_ne_some]
        intro a ha
        cases hfirst.symm.trans (htold.accepted?_eq_some_iff.1 ha).2
      rw [hnone]
      rfl
    | none =>
      have hsame : accepted? id (after id (.fresh name outbound) ms) m = m.acceptable? id := by
        ext a
        rw [htold.accepted?_eq_some_iff]
        simp only [hfirst, and_true]
      rw [hsame, Option.none_or]
      rfl

/-! ## §6. Handshakes -/

/-- **When a handshake is complete, and when a version is negotiated.**  The handshake of a peer is
complete once the peer has acknowledged, and the version of the peer is negotiated once there was an
announcement to accept; neither waits for the other. -/
theorem complete_iff_acknowledged (id : Identity) (name : PeerName) (outbound : Bool)
    (ms : List Arrival) :
    let peer := after id (.fresh name outbound) ms
    (peer.handshakeDone = true ↔ ∃ m ∈ ms, m.message = .verack)
      ∧ ((∃ info, peer.info = some info ∧ peer.version = min info.version id.version) ↔
        ∃ m ∈ ms, ∃ a, m.message = .version a ∧ Acceptable id a)
      ∧ ((∀ m ∈ ms, ∀ a, m.message = .version a → ¬ Acceptable id a) →
        peer.info = none ∧ peer.version = Protocol.initialVersion) := by
  intro peer
  have h : Remembers id ms peer := remembers_after id name outbound ms
  cases hfirst : firstAcceptable id ms with
  | none =>
    have hinfo := h.info
    have hversion := h.version
    rw [hfirst] at hinfo hversion
    have hnone := firstAcceptable_eq_none_iff.1 hfirst
    refine ⟨h.handshakeDone, ?_, fun _ => ⟨hinfo, hversion⟩⟩
    constructor
    · rintro ⟨info, hsome, -⟩
      cases hinfo.symm.trans hsome
    · rintro ⟨m, hm, a, hversion, ha⟩
      exact absurd ha (hnone m hm a hversion)
  | some a =>
    have hinfo := h.info
    have hversion := h.version
    rw [hfirst] at hinfo hversion
    obtain ⟨m, hm, ha⟩ := List.exists_of_findSome?_eq_some hfirst
    obtain ⟨hmessage, ha⟩ := acceptable?_eq_some_iff.1 ha
    refine ⟨h.handshakeDone, ?_, fun hnone => absurd ha (hnone m hm a hmessage)⟩
    exact ⟨fun _ => ⟨m, hm, a, hmessage, ha⟩, fun _ => ⟨_, hinfo, hversion⟩⟩

/-- **An acknowledgement alone completes a handshake.**  Of a peer that says nothing else no message is
refused, but no version is negotiated with it. -/
theorem not_negotiated_of_complete :
    ¬ ∀ (id : Identity) (name : PeerName) (outbound : Bool) (ms : List Arrival),
      (∀ front m, front ++ [m] <+: ms →
        ∃ replies, (hear id (after id (.fresh name outbound) front) m).2 = .ok replies) →
      (after id (.fresh name outbound) ms).handshakeDone = true →
      ∃ info, (after id (.fresh name outbound) ms).info = some info
        ∧ (after id (.fresh name outbound) ms).version = min info.version id.version := by
  intro hall
  let id : Identity := ⟨Protocol.currentVersion, ⟨0⟩, "", false, 0⟩
  let first : Arrival := ⟨.verack, 0, .start (.ofGenesis Params.regtest.genesis)⟩
  have haccepted : ∀ front m, front ++ [m] <+: [first] →
      ∃ replies, (hear id (after id (.fresh ⟨1, ""⟩ false) front) m).2 = .ok replies := by
    rintro front m ⟨rest, hrest⟩
    cases front with
    | nil =>
      obtain ⟨rfl, -⟩ := List.cons.inj hrest
      exact ⟨[], rfl⟩
    | cons n front => simp at hrest
  obtain ⟨info, hinfo, -⟩ := hall id ⟨1, ""⟩ false [first] haccepted rfl
  cases hinfo

/-- **A version is negotiated at most once, and a failure changes nothing.**  The first version of all
is in force until an announcement is accepted, and the lower of the two versions ever after.  One
announcement at most is accepted: it is another node's, and its version is not too old.  One that is
refused leaves the peer as it was.  One that is accepted is answered by an announcement of this
node's own, if the peer opened the connection, and by an acknowledgement; nothing else is answered
that way.  A ping is answered by a pong.  What is complete stays complete, and what is preferred
stays preferred. -/
theorem negotiates_once (id : Identity) (name : PeerName) (outbound : Bool)
    (before : List Arrival) (m : Arrival) (later : List Arrival) :
    let start := Peer.fresh name outbound
    let peer := after id start before
    let answer := (hear id peer m).2
    let last := after id start (before ++ m :: later)
    -- the version in force
    (accepted id start before = [] → peer.version = Protocol.initialVersion)
      ∧ (∀ a ∈ accepted id start before, peer.version = min a.version id.version
        ∧ last.version = min a.version id.version)
      -- which announcements are accepted
      ∧ (accepted id start (before ++ m :: later)).length ≤ 1
      ∧ (∀ a ∈ accepted id start (before ++ m :: later),
        Protocol.oldestVersion ≤ a.version ∧ a.nonce ≠ id.nonce)
      ∧ (∀ a, m.message = .version a →
        ((∃ replies, answer = .ok replies) ↔ accepted id start before = [] ∧ Acceptable id a))
      -- what a refusal leaves
      ∧ (∀ cause, answer = .error cause → (hear id peer m).1 = peer ∧ ∃ a, m.message = .version a
        ∧ (cause = .misbehaved .selfConnection ∧ a.nonce = id.nonce
          ∨ cause = .misbehaved (.obsoleteVersion a.version) ∧ a.version < Protocol.oldestVersion
          ∨ cause = .misbehaved .repeatedAnnouncement ∧ accepted id start before ≠ []))
      -- the answers
      ∧ (∀ a replies, m.message = .version a → answer = .ok replies →
        replies = if outbound then [.verack]
          else [.version (id.announcement m.now a.sender m.worker.tree.bestNode.height), .verack])
      ∧ ((∀ a, m.message ≠ .version a) →
        ∃ replies, answer = .ok replies ∧ .verack ∉ replies ∧ ∀ a, .version a ∉ replies)
      ∧ (∀ nonce, m.message = .ping nonce → answer = .ok [.pong nonce])
      -- what is not taken back
      ∧ (peer.handshakeDone = true → last.handshakeDone = true)
      ∧ (peer.prefersHeaders = true → last.prefersHeaders = true) := by
  intro start peer answer last
  have h : Remembers id before peer := remembers_after id name outbound before
  have hlast : Remembers id (before ++ m :: later) last := remembers_after id name outbound _
  have haccepted : ∀ ms, accepted id start ms = (firstAcceptable id ms).toList :=
    accepted_eq id name outbound
  have hnone : accepted id start before = [] ↔ firstAcceptable id before = none := by
    rw [haccepted, Option.toList_eq_nil_iff]
  refine ⟨?_, ?_, ?_, ?_, ?_, ?_, ?_, ?_, ?_, ?_, ?_⟩
  · intro hempty
    rw [h.version, hnone.1 hempty]
  · intro a ha
    rw [haccepted, Option.mem_toList] at ha
    have hfirst : firstAcceptable id (before ++ m :: later) = some a := by
      rw [firstAcceptable_append, ha]
      rfl
    rw [h.version, hlast.version, ha, hfirst]
    exact ⟨rfl, rfl⟩
  · rw [haccepted]
    exact Option.length_toList_le
  · intro a ha
    rw [haccepted, Option.mem_toList] at ha
    exact (acceptable_of_first ha).symm
  · intro a hm
    rw [hnone, and_comm, ← h.check_iff]
    exact answered_iff hm
  · intro cause hcause
    obtain ⟨hsame, a, offence, hm, hcheck, rfl⟩ := refused_cases hcause
    refine ⟨hsame, a, hm, ?_⟩
    rcases offence_cases hcheck with ⟨rfl, hnonce⟩ | ⟨rfl, hversion⟩ | ⟨rfl, hinfo⟩
    · exact .inl ⟨rfl, hnonce⟩
    · exact .inr (.inl ⟨rfl, hversion⟩)
    · refine .inr (.inr ⟨rfl, ?_⟩)
      intro hempty
      rw [h.info, hnone.1 hempty] at hinfo
      exact hinfo rfl
  · intro a replies hm hanswer
    rw [eq_welcome_of_answered hm hanswer, outbound_after]
    rfl
  · exact answer_of_other
  · intro nonce hm
    show (hear id peer m).2 = _
    rw [hear_eq, hm]
  · rw [h.handshakeDone, hlast.handshakeDone]
    rintro ⟨n, hn, hverack⟩
    exact ⟨n, List.mem_append_left _ hn, hverack⟩
  · rw [h.prefersHeaders, hlast.prefersHeaders]
    rintro ⟨n, hn, hsend⟩
    exact ⟨n, List.mem_append_left _ hn, hsend⟩

end

end HeaderPeer.Handshake
