import Hwio.Server.Departures
import Hwio.Server.Traversal

/-!
Contract: the use of client records that `remove_client` has deleted.

Owns what a pass reads from removed records and queues for them, and the exact
runs in which no record is used behind its removal.

Does not own the frames that end a connection.
-/

namespace Hwio

open Library

variable {World : Type}

namespace HwioServer

variable {tables : Tables World} {start : Service World} {sys : Sys}

/-! ## Dead records in a pass -/

/-- The clients that some events remove, in order. -/
def removedIn (events : List Event) : List ClientPtr :=
  events.filterMap fun
    | .removed client => some client
    | _ => none

@[simp] theorem removedIn_append (first second : List Event) :
    removedIn (first ++ second) = removedIn first ++ removedIn second :=
  List.filterMap_append

/-- The events behind which nothing is removed or read from a removed record. -/
def Sparing (event : Event) : Prop :=
  ∀ client, event ≠ .removed client ∧ event ≠ .readFreed client

theorem removedIn_sparing {events : List Event} (sparing : ∀ event ∈ events, Sparing event) :
    removedIn events = [] := by
  refine List.filterMap_eq_nil_iff.mpr fun event member => ?_
  have spares := sparing event member
  cases event with
  | removed client => exact absurd rfl (spares client).1
  | _ => rfl

/-- The queue holds the descriptors with which the removed clients were made. -/
def Queued (history : List Event) (removed : List ClientPtr) (queue : List Fd) : Prop :=
  List.Forall₂ (fun client fd => .created client fd ∈ history) removed queue

/-- What a part of a pass does with removed records: it follows no pointer to
one, reads a field of one just when a frame has asked for the disconnect, and
else queues the descriptors of the clients that it removes. -/
structure Uses (before : HwioServer World) (ran : Ran World Unit) : Prop where
  followed : ran.1 ≠ .error .dangling
  events : ∃ events, ran.2.trace = before.trace ++ events ∧
    ((∃ client, .readFreed client ∈ events) ↔ ∃ client, .handled client true ∈ events) ∧
    ((∀ client, .handled client true ∉ events) → ∃ queue,
      ran.2.removedPollFds = before.removedPollFds ++ queue ∧
        Queued ran.2.trace (removedIn events) queue)

theorem Uses.sparing {before : HwioServer World} {ran : Ran World Unit}
    (followed : ran.1 ≠ .error .dangling) {events : List Event}
    (trace : ran.2.trace = before.trace ++ events) (sparing : ∀ event ∈ events, Sparing event)
    (unhandled : ∀ client, .handled client true ∉ events)
    (kept : ran.2.removedPollFds = before.removedPollFds) : Uses before ran where
  followed := followed
  events := by
    refine ⟨events, trace, iff_of_false ?_ ?_, fun _ => ⟨[], ?_, ?_⟩⟩
    · rintro ⟨client, read⟩
      exact (sparing _ read client).2 rfl
    · rintro ⟨client, handled⟩
      exact unhandled client handled
    · rw [kept, List.append_nil]
    · rw [removedIn_sparing sparing]
      exact .nil

theorem Uses.trans {before between : HwioServer World} {ran : Ran World Unit}
    (first : Uses before (.ok (), between)) (second : Uses between ran) : Uses before ran where
  followed := second.followed
  events := by
    obtain ⟨early, trace, read, queues⟩ := first.events
    obtain ⟨late, trace', read', queues'⟩ := second.events
    refine ⟨early ++ late, ?_, ?_, fun unhandled => ?_⟩
    · rw [trace', show between.trace = _ from trace, List.append_assoc]
    · simp only [List.mem_append, exists_or, read, read']
    · simp only [List.mem_append, not_or, forall_and] at unhandled
      obtain ⟨queue, queued, made⟩ := queues unhandled.1
      obtain ⟨queue', queued', made'⟩ := queues' unhandled.2
      refine ⟨queue ++ queue', ?_, ?_⟩
      · rw [queued', show between.removedPollFds = _ from queued, List.append_assoc]
      · rw [removedIn_append]
        refine List.rel_append (List.Forall₂.imp ?_ made) made'
        intro client fd created
        rw [trace']
        exact List.mem_append_left _ created

theorem Uses.noted {server : HwioServer World} {event : Event} {ran : Ran World Unit}
    (sparing : Sparing event) (unhandled : ∀ client, event ≠ .handled client true)
    (uses : Uses (note event server) ran) : Uses server ran := by
  have noted : Uses server (.ok (), note event server) := by
    refine @Uses.sparing _ server (.ok (), note event server) (by simp) [event] rfl ?_ ?_ rfl
    · intro other member
      rw [List.mem_singleton.mp member]
      exact sparing
    · intro client member
      exact unhandled client (List.mem_singleton.mp member).symm
  exact noted.trans uses

/-- A live client is removed and its descriptor is queued. -/
theorem Agreed.removal_uses {master : Fd} {server : HwioServer World}
    (agreed : Agreed master server) {client : ClientPtr} {record : ClientInfo}
    (live : server.heap client = some record) :
    Uses server (.ok (), pushRemoved record.fd (deleteClient client record server)) where
  followed := by simp
  events := by
    have made := (agreed.made client record live).1
    have alone : removedIn (.removed client :: closeOnDelete record.fd) = [client] := by
      have none : removedIn (closeOnDelete record.fd) = [] := removedIn_sparing fun event member =>
        fun other => by rw [eq_closed_of_mem member]; simp
      rw [← List.singleton_append, removedIn_append, none]
      rfl
    refine ⟨.removed client :: closeOnDelete record.fd, rfl, iff_of_false ?_ ?_, fun _ =>
      ⟨[record.fd], rfl, ?_⟩⟩
    · rintro ⟨other, read⟩
      rcases List.mem_cons.mp read with same | closed
      · cases same
      · cases eq_closed_of_mem closed
    · rintro ⟨other, handled⟩
      rcases List.mem_cons.mp handled with same | closed
      · cases same
      · cases eq_closed_of_mem closed
    · rw [alone]
      exact .cons (List.mem_append_left _ made) .nil

/-- The handling of a frame notes the disconnect just when it asks for it. -/
theorem handleFrame_noted (tables : Tables World) (sys : Sys) (client : ClientPtr)
    (session : Session World) :
    ∃ events, (handleFrame tables sys client session).2.trace = session.trace ++ events ∧
      ((∃ other, .handled other true ∈ events) ↔
        (handleFrame tables sys client session).1 = .ok true) := by
  have noCall : ∀ (calls : List Call) other, .handled other true ∉ calls.map (Event.called client) :=
    by simp
  rcases handleFrame_eq tables sys client session with
    ⟨stop, failed, left⟩ | ⟨res, sent, disconnect, ok, onlySent, front, decided, left⟩
  · rw [left]
    refine ⟨_, rfl, iff_of_false ?_ (by simp)⟩
    rintro ⟨other, handled⟩
    rcases List.mem_cons.mp handled with same | call
    · cases same
    · exact noCall _ _ call
  · rw [left]
    refine ⟨_, List.append_assoc .., ?_⟩
    have noPart : ∀ other, .handled other true ∉ sent := by
      intro other member
      obtain ⟨bytes, same⟩ := onlySent _ member
      cases same
    simp only [List.cons_append, List.mem_cons, List.mem_append, noCall, noPart, reduceCtorEq,
      false_or, List.not_mem_nil, or_false, Event.handled.injEq, exists_eq_left, Except.ok.injEq]
    exact eq_comm

theorem parseLoop_noted (tables : Tables World) (sys : Sys) (client : ClientPtr) (fuel : Nat)
    (session : Session World) :
    ∃ events, (parseLoop tables sys client fuel session).2.trace = session.trace ++ events ∧
      ((∃ other, .handled other true ∈ events) ↔
        (parseLoop tables sys client fuel session).1 = .disconnect) := by
  have waiting : ∃ events, session.trace = session.trace ++ events ∧
      ((∃ other, .handled other true ∈ events) ↔ LoopEnd.waiting = .disconnect) :=
    ⟨[], (List.append_nil _).symm, by simp⟩
  induction fuel generalizing session with
  | zero => exact waiting
  | succ fuel inductionHypothesis =>
      obtain ⟨events, trace, noted⟩ := handleFrame_noted tables sys client session
      rw [parseLoop]
      split
      · exact waiting
      split
      · exact waiting
      rcases handling : handleFrame tables sys client session with ⟨result, left⟩
      rw [handling] at trace noted
      cases result with
      | error stop => exact ⟨events, trace, noted.trans (by simp)⟩
      | ok disconnect =>
          cases disconnect with
          | true => exact ⟨events, trace, noted.trans (by simp)⟩
          | false =>
              obtain ⟨more, trace', noted'⟩ := inductionHypothesis left
                ⟨[], (List.append_nil _).symm, by simp⟩
              refine ⟨events ++ more, ?_, ?_⟩
              · show (parseLoop tables sys client fuel left).2.trace = _
                rw [trace', show left.trace = _ from trace, List.append_assoc]
              · show _ ↔ (parseLoop tables sys client fuel left).1 = .disconnect
                rw [← noted']
                simp only [List.mem_append, exists_or, noted]
                simp

theorem Traffic.sparing {client : ClientPtr} {before after : Session World}
    (traffic : Traffic client before after) :
    ∃ events, after.trace = before.trace ++ events ∧ ∀ event ∈ events, Sparing event := by
  obtain ⟨events, trace, own⟩ := traffic.trace
  refine ⟨events, trace, fun event member other => ⟨?_, ?_⟩⟩
  · rintro rfl
    exact (own _ member).1 trivial
  · rintro rfl
    cases (own _ member).2

theorem parseMsgs_uses (sys : Sys) {master : Fd} {server : HwioServer World}
    (agreed : Agreed master server) {client : ClientPtr} {record : ClientInfo}
    (live : server.heap client = some record) :
    Uses server (parseMsgs sys client (server.session record) server) ∧
      Agreed master (parseMsgs sys client (server.session record) server).2 := by
  obtain ⟨traffic, escapes⟩ := parseLoop_traffic server.tables sys client
    (server.session record).client.rxBuffer.currLen (server.session record)
  obtain ⟨events, trace, sparing⟩ := Traffic.sparing traffic
  obtain ⟨same, trace', noted⟩ := parseLoop_noted server.tables sys client
    (server.session record).client.rxBuffer.currLen (server.session record)
  obtain rfl : events = same := List.append_cancel_left (trace.symm.trans trace')
  unfold parseMsgs
  rcases loop : parseLoop server.tables sys client
    (server.session record).client.rxBuffer.currLen (server.session record) with ⟨ended, after⟩
  rw [loop] at traffic escapes trace noted
  have quiet : Quiet server (server.putSession client after) :=
    quiet_putSession live traffic.id traffic.fd traffic.quiet
  have left : ∀ result : Except Stop Unit, result ≠ .error .dangling → ended ≠ .disconnect →
      Uses server (result, server.putSession client after) ∧
        Agreed master (server.putSession client after) := fun result followed stays =>
    ⟨.sparing followed trace sparing (fun other member => stays (noted.mp ⟨other, member⟩)) rfl,
      agreed.quiet quiet⟩
  cases ended with
  | waiting => exact left _ (by simp) (by simp)
  | stopped stop =>
      refine left (.error stop) (fun same => ?_) (by simp)
      cases same
      rcases escapes _ rfl with ⟨exn, other⟩ | other
      · cases other
      · cases other
  | disconnect =>
      have live' := putSession_heap server client after
      have removal := (agreed.quiet quiet).removeClient live'
      simp only [removal]
      constructor
      · refine ⟨by simp, events ++ (.removed client :: closeOnDelete after.client.fd ++
          [.readFreed client]), ?_, ?_, fun unhandled => ?_⟩
        · show (after.trace ++ _) ++ [.readFreed client] = _
          rw [show after.trace = _ from trace, List.append_assoc, List.append_assoc]
          rfl
        · refine iff_of_true ⟨client, ?_⟩ ?_
          · simp
          · obtain ⟨other, handled⟩ := noted.mpr rfl
            exact ⟨other, List.mem_append_left _ handled⟩
        · obtain ⟨other, handled⟩ := noted.mpr rfl
          exact absurd (List.mem_append_left _ handled) (unhandled other)
      · have deleted := (agreed.quiet quiet).delete live'
        exact (deleted.quiet (quiet_note _ (show ¬ Life (.readFreed client) from id))).quiet
          (quiet_pushRemoved _ _)

theorem handleMultipleClientRequests_uses (sys : Sys) {master fd : Fd} {server : HwioServer World}
    (agreed : Agreed master server) (known : fd ∈ server.fdToClient) :
    Uses server (handleMultipleClientRequests sys fd server) ∧
      Agreed master (handleMultipleClientRequests sys fd server).2 := by
  obtain ⟨client, entry⟩ := Option.isSome_iff_exists.mp (AList.lookup_isSome.mpr known)
  obtain ⟨record, live, rfl⟩ := agreed.entry_record fd client entry
  have owner : clientOf sys record.fd server = (.ok client, server) := by
    simp only [clientOf, entry]
  have traffic := readFromSocket_traffic sys client (server.session record)
  obtain ⟨events, trace, sparing⟩ := Traffic.sparing traffic
  obtain ⟨same, trace', only⟩ := readFromSocket_events sys client (server.session record)
  obtain rfl : events = same := List.append_cancel_left (trace.symm.trans trace')
  have unhandled : ∀ other, .handled other true ∉ events := by
    intro other member
    rcases only _ member with ⟨_, _, same⟩ | ⟨_, _, _, same⟩
    · cases same
    · cases same
  simp only [handleMultipleClientRequests, owner, live, if_pos]
  rcases reading : readFromSocket sys client (server.session record) with ⟨came, session⟩
  rw [reading] at traffic trace
  have quiet : Quiet server (server.putSession client session) :=
    quiet_putSession live traffic.id traffic.fd traffic.quiet
  have agreed' := agreed.quiet quiet
  have live' := putSession_heap server client session
  have read : Uses server (.ok (), server.putSession client session) :=
    .sparing (by simp) trace sparing unhandled rfl
  cases came with
  | true =>
      obtain ⟨uses, last⟩ := parseMsgs_uses sys agreed' live'
      exact ⟨read.trans uses, last⟩
  | false =>
      have removal := agreed'.removeClient live'
      have uses := agreed'.removal_uses live'
      rw [show session.client.fd = record.fd from traffic.fd] at removal uses
      simp only [removal]
      exact ⟨read.trans uses, (agreed'.delete live').quiet (quiet_pushRemoved _ _)⟩

/-- The round of an entry. -/
theorem visit_uses (sys : Sys) {master fd : Fd} {server : HwioServer World}
    (agreed : Agreed master server) (isMaster : server.masterSocket = master)
    (known : fd ∈ server.fdToClient) (revents : UInt16) :
    Uses server (visit sys fd revents server) ∧ Agreed master (visit sys fd revents server).2 := by
  have visited : Sparing (.visited fd) := fun client => by simp
  have agreed' := agreed.quiet (quiet_note server (show ¬ Life (.visited fd) from id))
  have other : ¬ fd = (note (.visited fd) server).masterSocket := by
    show ¬ fd = server.masterSocket
    rw [isMaster]
    exact (agreed.valid fd known).2
  unfold visit
  split
  · exact ⟨.sparing (by simp) (List.append_nil _).symm (by simp) (by simp) rfl, agreed⟩
  simp only [if_neg other]
  split
  · obtain ⟨client, entry⟩ := Option.isSome_iff_exists.mp (AList.lookup_isSome.mpr known)
    obtain ⟨record, live, rfl⟩ := agreed.entry_record fd client entry
    simp only [agreed'.removeClient live]
    exact ⟨(agreed'.removal_uses live).noted visited (by simp),
      (agreed'.delete live).quiet (quiet_pushRemoved _ _)⟩
  · obtain ⟨uses, last⟩ := handleMultipleClientRequests_uses sys agreed'
      (show fd ∈ (note (.visited fd) server).fdToClient from known)
    exact ⟨uses.noted visited (by simp), last⟩

theorem visitAll_uses (sys : Sys) {master : Fd} {server : HwioServer World}
    (agreed : Agreed master server) (isMaster : server.masterSocket = master)
    (ready : List (Fd × UInt16)) (distinct : (ready.map Prod.fst).Nodup)
    (known : ∀ fd ∈ ready.map Prod.fst, fd ∈ server.fdToClient) :
    Uses server (visitAll sys ready server) ∧ Agreed master (visitAll sys ready server).2 := by
  induction ready generalizing server with
  | nil =>
      refine ⟨?_, agreed⟩
      exact .sparing (by simp [visitAll]) (List.append_nil _).symm (by simp) (by simp) rfl
  | cons head later inductionHypothesis =>
      obtain ⟨fd, revents⟩ := head
      have here : fd ∈ server.fdToClient := known fd List.mem_cons_self
      have fresh := List.nodup_cons.mp distinct
      obtain ⟨uses, agreed'⟩ := visit_uses sys agreed isMaster here revents
      have isClient : fd ≠ server.masterSocket := by
        rw [isMaster]
        exact (agreed.valid fd here).2
      have same := Steps.masterSocket (Moves.steps (visit_moves sys fd revents server))
      have others : ∀ other ∈ later.map Prod.fst,
          other ∈ (visit sys fd revents server).2.fdToClient := by
        intro other member
        refine visit_others here isClient ?_ (known other (List.mem_cons_of_mem _ member))
        rintro rfl
        exact fresh.1 member
      rw [visitAll]
      rcases visiting : visit sys fd revents server with ⟨result, left⟩
      rw [visiting] at uses agreed' same others
      cases result with
      | error stop => exact ⟨uses, agreed'⟩
      | ok done =>
          obtain ⟨more, last⟩ := inductionHypothesis agreed' (same.trans isMaster) fresh.2 others
          exact ⟨uses.trans more, last⟩

/-- The rounds of a pass. -/
def roundsOf (sys : Sys) (server : HwioServer World) : Ran World Unit :=
  match sys.ppoll server.trace server.pollFds with
  | .ready revents =>
      visitAll sys (server.pollFds.mapIdx fun index fd => (fd, revents index)) server
  | _ => (.ok (), server)

theorem Consistent.roundsOf_uses {master : Fd} {rest : List Fd} {server : HwioServer World}
    (consistent : Consistent master rest server) (sys : Sys) :
    Uses server (roundsOf sys server) := by
  have idle : Uses server (.ok (), server) :=
    .sparing (by simp) (List.append_nil _).symm (by simp) (by simp) rfl
  have polled := consistent.polled
  unfold roundsOf
  split
  case h_2 => exact idle
  next revents _ =>
    have outcome := @visit_master_outcome _ sys _ _ _ polled consistent.unqueued (revents 0)
    simp only [polled.pollFds, List.mapIdx_cons, visitAll]
    have first : Uses server (visit sys master (revents 0) server) := by
      rcases @visit_master_cases _ sys _ _ _ polled (revents 0) with
        idle | ⟨exn, failed, _⟩ | ⟨socket, accepting, ran⟩
      · rw [idle]
        assumption
      · rw [failed]
        refine @Uses.sparing _ server (_, note (.visited master) server) (by simp)
          [.visited master] rfl ?_ (by simp) rfl
        simp [Sparing]
      · rw [ran]
        refine @Uses.sparing _ server (_, connect sys socket (note (.visited master) server))
          (by simp) [.visited master, .accepted socket, .created server.nextClient socket] ?_ ?_
          (by simp) rfl
        · show (connect sys socket (note (.visited master) server)).trace = _
          rw [connect_trace]
          exact List.append_assoc ..
        · simp [Sparing]
    rcases visiting : visit sys master (revents 0) server with ⟨result, left⟩
    rw [visiting] at outcome first
    cases result with
    | error stop => exact first
    | ok done =>
        obtain ⟨unqueued, more, _, polled', _⟩ := outcome
        have fds := polled_fds rest fun index => revents (index + 1)
        refine first.trans (visitAll_uses sys polled'.agreed polled'.masterSocket _ ?_ ?_).1
        · rw [fds]
          exact polled.distinct
        · rw [fds]
          intro fd member
          rw [polled'.entries, unqueued]
          exact ⟨List.mem_append_left _ member, List.not_mem_nil⟩

/-! ## Passes that use live records only -/

theorem roundsOf_moves (sys : Sys) (server : HwioServer World) :
    Moves sys (.idle, server) (.idle, (roundsOf sys server).2) := by
  unfold roundsOf
  split
  · exact visitAll_moves sys _ server
  · exact .refl

/-- A pass is its rounds with the cleanup behind them. -/
theorem poolClientMsgs_rounds (sys : Sys) (server : HwioServer World) :
    (poolClientMsgs sys server).2.trace = (roundsOf sys server).2.trace ∧
      ((poolClientMsgs sys server).1 = .error .dangling →
        (roundsOf sys server).1 = .error .dangling) := by
  unfold poolClientMsgs roundsOf
  cases sys.ppoll server.trace server.pollFds with
  | timeout => exact ⟨rfl, id⟩
  | interrupted => exact ⟨rfl, id⟩
  | failed errno => exact ⟨rfl, fun other => by cases other⟩
  | ready revents =>
      simp only
      rcases visitAll sys (server.pollFds.mapIdx fun index fd => (fd, revents index)) server with
        ⟨result, left⟩
      cases result with
      | error stop => exact ⟨rfl, id⟩
      | ok done => exact ⟨rfl, id⟩

/-- The events of the rounds of a pass. -/
def newEvents (sys : Sys) (server : HwioServer World) : List Event :=
  (roundsOf sys server).2.trace.drop server.trace.length

theorem newEvents_eq {server : HwioServer World} {events : List Event}
    (trace : (roundsOf sys server).2.trace = server.trace ++ events) :
    newEvents sys server = events := by
  rw [newEvents, trace, List.drop_left]

/-- A pass that uses records only while they live: it follows no pointer to a
removed record, it reads no field of one, and it queues the descriptors with
which the removed clients were made, in their order. -/
structure UsesLive (sys : Sys) (server : HwioServer World) : Prop where
  followed : (poolClientMsgs sys server).1 ≠ .error .dangling
  read : ∀ client, .readFreed client ∉ newEvents sys server
  queued : Queued (roundsOf sys server).2.trace (removedIn (newEvents sys server))
    (roundsOf sys server).2.removedPollFds

/-- A pass in which no frame ends its connection. -/
def Calm (tables : Tables World) (start : Service World) (sys : Sys)
    (server : HwioServer World) : Prop :=
  NoneEnds tables start sys server.trace (newEvents sys server)

theorem calm_iff_unhandled {server : HwioServer World} (known : Known tables start server)
    (described : Described server) :
    Calm tables start sys server ↔ ∀ client, .handled client true ∉ newEvents sys server := by
  obtain ⟨events, trace, tally⟩ := Moves.tallied (roundsOf_moves sys server) known described
  rw [Calm, newEvents_eq trace, tally]

theorem Consistent.usesLive_iff {master : Fd} {rest : List Fd} {server : HwioServer World}
    (consistent : Consistent master rest server) (known : Known tables start server)
    (described : Described server) : UsesLive sys server ↔ Calm tables start sys server := by
  obtain ⟨followed, events, trace, read, queues⟩ := consistent.roundsOf_uses sys
  rw [calm_iff_unhandled known described]
  constructor
  · intro live client handled
    rw [newEvents_eq trace] at handled
    obtain ⟨other, freed⟩ := read.mpr ⟨client, handled⟩
    refine live.read other ?_
    rw [newEvents_eq trace]
    exact freed
  · intro unhandled
    rw [newEvents_eq trace] at unhandled
    obtain ⟨queue, queued, made⟩ := queues unhandled
    refine ⟨fun dangling => followed ((poolClientMsgs_rounds sys server).2 dangling), ?_, ?_⟩
    · rw [newEvents_eq trace]
      intro client freed
      obtain ⟨other, handled⟩ := read.mp ⟨client, freed⟩
      exact unhandled other handled
    · rw [newEvents_eq trace, queued, consistent.unqueued]
      exact made

/-! ## What a removed record reads as -/

/-- The system in which a removed record still reads as it was. -/
def Sys.remembering (sys : Sys) : Sys := { sys with freedFd := fun _ fd => fd }

theorem parseLoop_remembering (tables : Tables World) (sys : Sys) (client : ClientPtr) (fuel : Nat)
    (session : Session World) :
    parseLoop tables (Sys.remembering sys) client fuel session =
      parseLoop tables sys client fuel session := by
  have sending : ∀ fd fuel bytes history,
      sendReply (Sys.remembering sys) fd client fuel bytes history =
        sendReply sys fd client fuel bytes history := by
    intro fd fuel bytes history
    induction fuel generalizing bytes history with
    | zero => cases bytes <;> rfl
    | succ fuel inductionHypothesis =>
        cases bytes with
        | nil => rfl
        | cons byte rest =>
            rw [sendReply, sendReply]
            simp only [inductionHypothesis]
            rfl
  have handling : ∀ session, handleFrame tables (Sys.remembering sys) client session =
      handleFrame tables sys client session := by
    intro session
    unfold handleFrame
    simp only [sending]
  induction fuel generalizing session with
  | zero => rfl
  | succ fuel inductionHypothesis =>
      rw [parseLoop, parseLoop, handling]
      simp only [inductionHypothesis]

/-- Unless a field of a removed record is read, it does not matter what it reads as. -/
def Forgets (before : HwioServer World) (ran ran' : Ran World Unit) : Prop :=
  ran' = ran ∨ ∃ client events, ran.2.trace = before.trace ++ events ∧ .readFreed client ∈ events

theorem Forgets.earlier {before between : HwioServer World} {ran ran' : Ran World Unit}
    (forgets : Forgets between ran ran') {events : List Event}
    (trace : between.trace = before.trace ++ events) : Forgets before ran ran' := by
  rcases forgets with same | ⟨client, later, trace', freed⟩
  · exact Or.inl same
  · refine Or.inr ⟨client, events ++ later, ?_, List.mem_append_right _ freed⟩
    rw [trace', trace, List.append_assoc]

theorem parseMsgs_forgets (sys : Sys) {client : ClientPtr} {server : HwioServer World}
    {session : Session World} (same : session.trace = server.trace) :
    Forgets server (parseMsgs sys client session server)
      (parseMsgs (Sys.remembering sys) client session server) := by
  obtain ⟨events, trace, _⟩ := parseLoop_noted server.tables sys client
    session.client.rxBuffer.currLen session
  unfold parseMsgs
  rw [parseLoop_remembering]
  rcases loop : parseLoop server.tables sys client session.client.rxBuffer.currLen session with
    ⟨ended, after⟩
  rw [loop] at trace
  cases ended with
  | waiting => exact Or.inl rfl
  | stopped stop => exact Or.inl rfl
  | disconnect =>
      obtain ⟨more, appended⟩ := Moves.appends
        (removeClient_moves sys after.client.fd (server.putSession client after))
      simp only
      rcases removal : removeClient after.client.fd (server.putSession client after) with
        ⟨result, left⟩
      rw [removal] at appended
      cases result with
      | error stop => exact Or.inl rfl
      | ok done =>
          refine Or.inr ⟨client, events ++ more ++ [.readFreed client], ?_, by simp⟩
          show left.trace ++ [.readFreed client] = _
          rw [show left.trace = _ from appended,
            show (server.putSession client after).trace = _ from trace, same]
          simp only [List.append_assoc]

theorem handleMultipleClientRequests_forgets (sys : Sys) (socket : Fd)
    (server : HwioServer World) :
    Forgets server (handleMultipleClientRequests sys socket server)
      (handleMultipleClientRequests (Sys.remembering sys) socket server) := by
  obtain ⟨events, trace⟩ := Moves.appends (clientOf_moves sys socket server)
  unfold handleMultipleClientRequests
  rw [show clientOf (Sys.remembering sys) socket server = clientOf sys socket server from rfl]
  rcases owner : clientOf sys socket server with ⟨result, owned⟩
  rw [owner] at trace
  cases result with
  | error stop => exact Or.inl rfl
  | ok client =>
      simp only
      split
      · exact Or.inl rfl
      next record live =>
        by_cases same : record.fd = socket
        case neg =>
          rw [if_neg same, if_neg same]
          exact Or.inl rfl
        rw [if_pos same, if_pos same]
        rw [show readFromSocket (Sys.remembering sys) client (owned.session record) =
          readFromSocket sys client (owned.session record) from rfl]
        obtain ⟨reads, trace', _⟩ := readFromSocket_events sys client (owned.session record)
        rcases reading : readFromSocket sys client (owned.session record) with ⟨came, session⟩
        rw [reading] at trace'
        cases came with
        | false => exact Or.inl rfl
        | true =>
            have parsing := @parseMsgs_forgets _ sys client (owned.putSession client session)
              session rfl
            have grown : (owned.putSession client session).trace =
                server.trace ++ (events ++ reads) := by
              show session.trace = _
              rw [show session.trace = _ from trace', ← List.append_assoc, ← trace]
              rfl
            exact parsing.earlier grown

theorem visit_forgets (sys : Sys) (fd : Fd) (revents : UInt16) (server : HwioServer World) :
    Forgets server (visit sys fd revents server) (visit (Sys.remembering sys) fd revents server) := by
  unfold visit
  split
  · exact Or.inl rfl
  simp only
  split
  · exact Or.inl rfl
  split
  · exact Or.inl rfl
  · have noted : (note (.visited fd) server).trace = server.trace ++ [.visited fd] := rfl
    exact (handleMultipleClientRequests_forgets sys fd (note (.visited fd) server)).earlier noted

theorem visitAll_forgets (sys : Sys) (ready : List (Fd × UInt16)) (server : HwioServer World) :
    Forgets server (visitAll sys ready server) (visitAll (Sys.remembering sys) ready server) := by
  induction ready generalizing server with
  | nil => exact Or.inl rfl
  | cons head later inductionHypothesis =>
      obtain ⟨fd, revents⟩ := head
      obtain ⟨early, trace⟩ := Moves.appends (visit_moves sys fd revents server)
      have forgets := visit_forgets sys fd revents server
      rw [visitAll, visitAll]
      rcases visiting : visit sys fd revents server with ⟨result, left⟩
      rw [visiting] at trace forgets
      rcases forgets with same | ⟨client, events, appended, freed⟩
      · rw [same]
        cases result with
        | error stop => exact Or.inl rfl
        | ok done => exact (inductionHypothesis left).earlier trace
      · right
        cases result with
        | error stop => exact ⟨client, events, appended, freed⟩
        | ok done =>
            obtain ⟨more, trace'⟩ := Moves.appends (visitAll_moves sys later left)
            refine ⟨client, events ++ more, ?_, List.mem_append_left _ freed⟩
            show (visitAll sys later left).2.trace = _
            rw [trace', show left.trace = _ from appended, List.append_assoc]

theorem poolClientMsgs_remembering {server : HwioServer World}
    (unread : ∀ client, .readFreed client ∉ newEvents sys server) :
    poolClientMsgs (Sys.remembering sys) server = poolClientMsgs sys server := by
  have polling : (Sys.remembering sys).ppoll server.trace server.pollFds =
      sys.ppoll server.trace server.pollFds := rfl
  unfold poolClientMsgs
  rw [polling]
  cases answered : sys.ppoll server.trace server.pollFds with
  | timeout => rfl
  | interrupted => rfl
  | failed errno => rfl
  | ready revents =>
      have rounds : roundsOf sys server = visitAll sys
          (server.pollFds.mapIdx fun index fd => (fd, revents index)) server := by
        simp only [roundsOf, answered]
      rcases visitAll_forgets sys (server.pollFds.mapIdx fun index fd => (fd, revents index)) server
        with same | ⟨client, events, trace, freed⟩
      · simp only [same]
      · rw [← rounds] at trace
        rw [← newEvents_eq trace] at freed
        exact absurd freed (unread client)

/-! ## Runs -/

/-- The states that passes lead to which all return and meet a condition. -/
inductive ServedBy (Meets : Sys → HwioServer World → Prop) (start : HwioServer World) :
    HwioServer World → Prop
  | start : ServedBy Meets start start
  | pass {server after : HwioServer World} (before : ServedBy Meets start server) (sys : Sys)
      (meets : Meets sys server) (returned : poolClientMsgs sys server = (.ok (), after)) :
      ServedBy Meets start after

/-- Where no field of a removed record is read, it might as well read as it was. -/
theorem ServedBy.served {start server : HwioServer World}
    (served : ServedBy UsesLive start server) : Served start server := by
  induction served with
  | start => exact .start
  | pass _ sys live returned served =>
      refine served.pass (Sys.remembering sys) (fun _ _ => rfl) ?_
      rw [poolClientMsgs_remembering live.read]
      exact returned

theorem Reached.described {tables : Tables World} {master : Fd} {tx : List Byte} {world : World}
    {server : HwioServer World} (reached : Reached (prepared tables master tx world) server) :
    Described server := by
  have kept := @Reached.moving _ _ _ (fun _ server =>
    Known tables (prepared tables master tx world).service server ∧ Described server) reached
  refine (kept ⟨Reached.known .start, fun client record live => ?_⟩ ?_).2
  · cases live
  · intro sys before after mode mode' move kept
    exact ⟨Move.known move kept.1, Move.described move kept.1 kept.2⟩

theorem ServedBy.usesLive_iff {tables : Tables World} {master : Fd} {tx : List Byte} {world : World}
    {server : HwioServer World}
    (served : ServedBy UsesLive (prepared tables master tx world) server) (sys : Sys) :
    UsesLive sys server ↔ Calm tables (prepared tables master tx world).service sys server := by
  obtain ⟨rest, consistent⟩ := served.served.consistent
  have reached := served.served.reached
  exact consistent.usesLive_iff reached.known reached.described

theorem ServedBy.calm {tables : Tables World} {master : Fd} {tx : List Byte} {world : World}
    {server : HwioServer World}
    (served : ServedBy UsesLive (prepared tables master tx world) server) :
    ServedBy (Calm tables (prepared tables master tx world).service)
      (prepared tables master tx world) server := by
  induction served with
  | start => exact .start
  | pass before sys live returned calm =>
      exact .pass calm sys ((before.usesLive_iff sys).mp live) returned

theorem ServedBy.live {tables : Tables World} {master : Fd} {tx : List Byte} {world : World}
    {server : HwioServer World}
    (served : ServedBy (Calm tables (prepared tables master tx world).service)
      (prepared tables master tx world) server) :
    ServedBy UsesLive (prepared tables master tx world) server := by
  induction served with
  | start => exact .start
  | pass _ sys calm returned live =>
      exact .pass live sys ((live.usesLive_iff sys).mpr calm) returned

/-- The runs whose passes use records only while they live are those in which no
frame ends its connection, and a further pass does just when none of its frames
does, however it ends. -/
theorem live_records_iff (tables : Tables World) (master : Fd) (tx : List Byte) (world : World)
    (server : HwioServer World) :
    let start := prepared tables master tx world
    (ServedBy UsesLive start server ↔ ServedBy (Calm tables start.service) start server) ∧
      (ServedBy (Calm tables start.service) start server →
        ∀ sys, UsesLive sys server ↔ Calm tables start.service sys server) :=
  ⟨⟨ServedBy.calm, ServedBy.live⟩, fun served sys => served.live.usesLive_iff sys⟩

/-- The state of `loneRun` between its passes: the client has connected. -/
def loneAccepted (bytes : List Byte) : HwioServer Unit :=
  (poolClientMsgs (loneClient bytes) (prepared bareTables 3 [] ())).2

theorem loneAccepted_calm {bytes : List Byte}
    (returned : (poolClientMsgs (loneClient bytes) (prepared bareTables 3 [] ())).1 = .ok ()) :
    ServedBy (Calm bareTables (prepared bareTables 3 [] ()).service) (prepared bareTables 3 [] ())
      (loneAccepted bytes) := by
  refine .pass .start (loneClient bytes) ?_ (Prod.ext returned rfl)
  have connects := congrArg HwioServer.trace (loneRun_connects bareTables [] () bytes)
  rw [(poolClientMsgs_rounds _ _).1] at connects
  rw [Calm, newEvents, connects]
  exact noneEnds_of_unasked (by simp [prepared])

/-- A PING is answered from the record that lives. -/
theorem ping_uses_live : UsesLive (loneClient [4, 0, 0]) (loneAccepted [4, 0, 0]) := by
  have served := @loneAccepted_calm [4, 0, 0] (by decide +kernel)
  have reached := served.live.served.reached
  have events : newEvents (loneClient [4, 0, 0]) (loneAccepted [4, 0, 0]) =
      [.visited 4, .received 0 0 65536 [4, 0, 0], .dispatched 0 0 ⟨4, 0⟩ [], .sent 0 [5, 0, 0],
        .handled 0 false] := by
    decide +kernel
  refine ((live_records_iff bareTables 3 [] () (loneAccepted [4, 0, 0])).2 served _).mpr ?_
  rw [calm_iff_unhandled reached.known reached.described, events]
  simp

/-- The system of `loneClient` in which a removed record reads as the master socket. -/
def forgetfulClient (bytes : List Byte) : Sys :=
  { loneClient bytes with freedFd := fun _ _ => 3 }

/-- BYE: the descriptor to queue is read from the record that is gone.  The
master socket is polled no more, and the closed socket still is. -/
theorem bye_reads_removed :
    let connected := loneAccepted [8, 0, 0]
    let bye := poolClientMsgs (forgetfulClient [8, 0, 0]) connected
    ServedBy UsesLive (prepared bareTables 3 [] ()) connected ∧
      ¬ UsesLive (forgetfulClient [8, 0, 0]) connected ∧
      bye.2.trace.drop 7 = [.handled 0 true, .removed 0, .closed 4, .readFreed 0] ∧
      bye.1 = .ok () ∧ bye.2.pollFds = [4] := by
  have read : .readFreed 0 ∈ newEvents (forgetfulClient [8, 0, 0]) (loneAccepted [8, 0, 0]) := by
    decide +kernel
  exact ⟨(loneAccepted_calm (by decide +kernel)).live, fun live => live.read 0 read,
    by decide +kernel, by decide +kernel, by decide +kernel⟩

end HwioServer

end Hwio
